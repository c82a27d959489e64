import EffectMachine.Proofs.Batch.Services
import EffectMachine.Proofs.Batch.Slots
import EffectMachine.Proofs.Interleaving.Interruptions

/-!
# Calls get their answers

What a call receives that takes part in a batch is its share of what the function returned to the flush that
collected the call, whatever becomes of the other calls.

* `Batch.Setting.flushed` says that a flush which is not interrupted answers all calls that it has collected.
* `Batch.Setting.delivered` says that such a call gets its share.
-/

namespace EffectMachine

/-- A computation that has ended makes no more strides. -/
theorem Follows.eq_nil_of_ends {first last : Progress} {acts before after : List Act} {act : Act}
    (follows : Follows first acts last) (hacts : acts = before ++ act :: after) (hends : act.ends = true) :
    after = [] := by
  induction follows generalizing before with
  | done => simp at hacts
  | complete rest | giveUp _ rest | vacate rest =>
      rw [rest.of_finished] at hacts
      cases before with
      | nil => exact (List.cons.inj hacts).2.symm
      | cons head before => simp at hacts
  | _ =>
      rename_i ih
      cases before with
      | nil =>
          rw [← (List.cons.inj hacts).1] at hends
          cases hends
      | cons head before => exact ih (List.cons.inj hacts).2

namespace Batch

variable {machine : Machine} {underlying : Nat → Function} {first : Host} {trace : Trace} {system : System}
variable {task : TaskId} {number : Nat} {group : BatchGroup}

/-! ## Flushes and their answers -/

/-- A computation has collected calls of a group, and the function that it called with them has returned. -/
def Returned (acts : List Act) (group : BatchGroup) (function : Function) (calls : List Enrolled) (returned : Outcome) :
    Prop :=
  ∃ before after, strides acts = before ++ .acted (.collect group) calls ::
    .acted (.emit (.batchFlushed function.name calls.length)) () :: .performed (invocation function calls) ::
    .resumed returned :: after

/-- A computation that the function returned to has collected the calls. -/
theorem Returned.collected {acts : List Act} {function : Function} {calls : List Enrolled} {returned : Outcome}
    (hreturned : Returned acts group function calls returned) : .acted (.collect group) calls ∈ acts := by
  obtain ⟨before, after, hstrides⟩ := hreturned
  exact (mem_strides.1 (by rw [hstrides]; simp)).1

/-- A flush that answers a call was told what the function returned. -/
theorem Flushing.returned_of_answer {function : Function} {acts : List Act} {slot : Slot} {outcome : Outcome}
    (flushing : Flushing group function (strides acts)) (hanswered : .acted (.answer slot outcome) () ∈ strides acts) :
    ∃ calls returned, Returned acts group function calls returned ∧
      (slot, outcome) ∈ shares function calls returned := by
  generalize hstrides : strides acts = made at flushing hanswered
  cases flushing with
  | waiting hquiet => cases Act.isBatch_of_isPrelude (hquiet _ hanswered)
  | calling calls hquiet hasking hunanswered =>
      rcases List.mem_append.1 hanswered with hmem | hmem
      · cases Act.isBatch_of_isPrelude (hquiet _ hmem)
      · rcases List.mem_cons.1 hmem with hcollected | hmem
        · cases hcollected
        · rcases hasking _ hmem with hact | hact
          · cases hact
          · cases hact
  | answering begun calls returned hquiet hbegun hreplies hdone =>
      refine ⟨calls, returned, ⟨_, _, hstrides⟩, ?_⟩
      rcases List.mem_append.1 hanswered with hmem | hmem
      · cases Act.isBatch_of_isPrelude (hquiet _ hmem)
      · simp only [List.mem_cons, reduceCtorEq, false_or] at hmem
        rcases hmem with hcollected | hemitted | hmem
        · cases hcollected
        · cases hemitted
        · exact hreplies _ hmem

/-- A flush that completes after it has collected calls has given each of them its share. -/
theorem Flushing.answered_of_completed {function : Function} {acts : List Act} {calls : List Enrolled} {outcome : Outcome}
    (flushing : Flushing group function (strides acts)) (hcollected : .acted (.collect group) calls ∈ strides acts)
    (hcompleted : .completed outcome ∈ strides acts) :
    ∃ returned, Returned acts group function calls returned ∧ outcome = .ok .null ∧
      ∀ share ∈ shares function calls returned, ∃ earlier later,
        strides acts = earlier ++ .acted (.answer share.1 share.2) () :: later ∧
          .acted (.collect group) calls ∈ earlier := by
  generalize hstrides : strides acts = made at flushing hcollected hcompleted
  cases flushing with
  | waiting hquiet => cases hquiet _ hcompleted
  | calling others hquiet hasking hunanswered =>
      rcases List.mem_append.1 hcompleted with hmem | hmem
      · cases hquiet _ hmem
      · rcases List.mem_cons.1 hmem with hact | hmem
        · cases hact
        · rcases hasking _ hmem with hact | hact <;> cases hact
  | @answering before after begun others returned hquiet hbegun hreplies hdone =>
      have hsame : others = calls := by
        rcases List.mem_append.1 hcollected with hmem | hmem
        · cases Act.isBatch_of_isPrelude (hquiet _ hmem)
        · simp only [List.mem_cons, reduceCtorEq, false_or] at hmem
          rcases hmem with hact | hact | hmem
          · cases hact
            rfl
          · cases hact
          · cases hreplies _ hmem
      subst hsame
      have hafter : .completed outcome ∈ after := by
        rcases List.mem_append.1 hcompleted with hmem | hmem
        · cases hquiet _ hmem
        · simpa using hmem
      refine ⟨returned, ⟨_, _, hstrides⟩, ?_, fun share hshare => ?_⟩
      · have hend := hreplies _ hafter
        cases outcome with
        | error error => exact hend.elim
        | ok value =>
            cases value with
            | null => rfl
            | _ => exact hend.elim
      · obtain ⟨earlier, later, rfl⟩ := List.append_of_mem (hdone outcome hafter share hshare)
        exact ⟨before ++ .acted (.collect group) others :: .acted (.emit (.batchFlushed function.name others.length)) () ::
          .performed (invocation function others) :: .resumed returned :: earlier, later, by simp, by simp⟩

/-- A call is collected by one computation. -/
theorem collector_once (recorded : Recorded trace) {other : BatchGroup} {running : TaskId} {place : Nat}
    {calls more : List Enrolled} {call twin : Enrolled}
    (hfirst : .acted (.collect group) calls ∈ life (deeds trace task) number)
    (hsecond : .acted (.collect other) more ∈ life (deeds trace running) place)
    (hcall : call ∈ calls) (htwin : twin ∈ more) (hslot : call.slot = twin.slot) :
    task = running ∧ number = place ∧ group = other ∧ calls = more := by
  obtain ⟨before, after, htrace, hactor⟩ := exists_of_life hfirst
  obtain ⟨others, later, hagain, hplace⟩ := exists_of_life hsecond
  obtain ⟨rfl, hentry⟩ := recorded.collected_once htrace hagain hcall htwin hslot
  cases hentry
  exact ⟨rfl, hactor.symm.trans hplace, rfl, rfl⟩

/-- The function returns once to a computation that has collected some calls. -/
theorem Returned.unique {function : Function} {calls : List Enrolled} {call : Enrolled}
    {returned result : Outcome} (hfirst : Returned (life (deeds trace task) number) group function calls returned)
    (recorded : Recorded trace)
    (hsecond : Returned (life (deeds trace task) number) group function calls result) (hcall : call ∈ calls) :
    returned = result := by
  obtain ⟨before, after, hstrides⟩ := hfirst
  obtain ⟨others, later, hagain⟩ := hsecond
  obtain ⟨acts, rest, hdeeds, -, rfl⟩ := exists_of_strides hstrides
  obtain ⟨more, tail, hothers, -, rfl⟩ := exists_of_strides hagain
  obtain ⟨earlier, _, htrace, rfl, -⟩ := exists_of_deeds hdeeds
  obtain ⟨seen, _, hsame, rfl, -⟩ := exists_of_deeds hothers
  -- the two returns follow one and the same act of collecting
  obtain ⟨rfl, -⟩ := recorded.collected_once htrace hsame hcall hcall rfl
  have hrest := List.append_cancel_left (hstrides.symm.trans hagain)
  simp only [List.cons.injEq, true_and] at hrest
  exact Act.resumed.inj hrest.1

/-- A call that was collected had its slot by then. -/
theorem born_of_collected (recorded : Recorded trace) {calls : List Enrolled} {call : Enrolled}
    (hcollected : (task, .acted (.collect group) calls) ∈ trace) (hcall : call ∈ calls) :
    call.slot.index < enrolments trace := by
  obtain ⟨before, after, rfl⟩ := List.append_of_mem hcollected
  have hcalls : calls = booked group before := recorded before task _ after rfl
  rw [hcalls] at hcall
  have hborn := recorded.left.lt_enrolments call hcall
  rw [enrolments_append]
  omega

/-- The calls that are collected have different slots. -/
theorem nodup_of_collected (recorded : Recorded trace) {calls : List Enrolled}
    (hcollected : .acted (.collect group) calls ∈ life (deeds trace task) number) : (calls.map Enrolled.slot).Nodup := by
  obtain ⟨before, after, htrace, -⟩ := exists_of_life hcollected
  have hcalls : calls = booked group before := recorded before task _ after htrace
  rw [htrace] at recorded
  rw [hcalls]
  exact recorded.left.nodup_booked

/-- The computation of a frame is not interrupted: its process has come to rest and took note of no cancellation, and
the frame was not discarded. -/
structure Uninterrupted (trace : Trace) (system : System) (task : TaskId) (number : Nat) : Prop where
  rest : system.AtRest task
  calm : .noticed ∉ deeds trace task
  kept : .dropped ∉ life (deeds trace task) number

namespace Setting

variable (setting : Setting machine underlying) (fresh : Fresh underlying first)
  (runs : Runs machine first trace system)
include setting fresh runs

/-- A flush that is not interrupted gives all calls that it has collected their shares of what the function
returned. -/
theorem flushed {calls : List Enrolled} (hcollected : .acted (.collect group) calls ∈ life (deeds trace task) number)
    (uninterrupted : Uninterrupted trace system task number) :
    ∃ returned, Returned (life (deeds trace task) number) group (underlying group.definition) calls returned ∧
      .completed (.ok .null) ∈ life (deeds trace task) number ∧
      ∀ share ∈ shares (underlying group.definition) calls returned, ∃ earlier later,
        strides (life (deeds trace task) number) = earlier ++ .acted (.answer share.1 share.2) () :: later ∧
          .acted (.collect group) calls ∈ earlier := by
  obtain ⟨window, tag, hpushed⟩ := setting.flush_of_collect fresh runs hcollected
  obtain ⟨outcome, hcompleted⟩ := runs.completed_of_rest uninterrupted.rest hpushed
    (runs.not_mem_givenUp uninterrupted.calm number) uninterrupted.kept
  obtain ⟨returned, hreturned, rfl, hanswers⟩ := (flushing_of_pushed runs hpushed).answered_of_completed
    (mem_strides.2 ⟨hcollected, rfl⟩) (mem_strides.2 ⟨hcompleted, rfl⟩)
  exact ⟨returned, hreturned, hcompleted, hanswers⟩

/-- What a call is answered with is its share of what the function returned to the flush that has collected it. -/
theorem share_of_answers {slot : Slot} {outcome : Outcome} (hanswers : Answers trace slot outcome) :
    ∃ task number group calls returned,
      Returned (life (deeds trace task) number) group (underlying group.definition) calls returned ∧
        (slot, outcome) ∈ shares (underlying group.definition) calls returned := by
  obtain ⟨before, task, after, htrace, -⟩ := hanswers
  have hdeed : .acted (.answer slot outcome) () ∈ deeds trace task := mem_deeds_iff.2 (by simp [htrace])
  obtain ⟨number, hanswered⟩ := exists_life_of_mem hdeed
  obtain ⟨group, window, tag, hpushed⟩ := setting.flush_of_answer fresh runs hanswered
  obtain ⟨calls, returned, hreturned, hshare⟩ :=
    (flushing_of_pushed runs hpushed).returned_of_answer (mem_strides.2 ⟨hanswered, rfl⟩)
  exact ⟨task, number, group, calls, returned, hreturned, hshare⟩

/-- A flush that is not interrupted answers its calls before it ends. -/
theorem answered_before_end {calls : List Enrolled} {call : Enrolled}
    (hcollected : .acted (.collect group) calls ∈ life (deeds trace task) number)
    (uninterrupted : Uninterrupted trace system task number) (hcall : call ∈ calls) {before after : Trace} {act : Act}
    (htrace : trace = before ++ (task, act) :: after) (hends : act.ends = true)
    (hactor : (Roll.after (deeds before task)).actor act = number) : ∃ outcome, Answers before call.slot outcome := by
  have recorded := (setting.books fresh runs).recorded
  obtain ⟨window, tag, hpushed⟩ := setting.flush_of_collect fresh runs hcollected
  obtain ⟨last, follows⟩ := follows_of_pushed runs hpushed
  obtain ⟨returned, -, -, hanswers⟩ := setting.flushed fresh runs hcollected uninterrupted
  obtain ⟨outcome, hshare⟩ : ∃ outcome, (call.slot, outcome) ∈ shares (underlying group.definition) calls returned := by
    have hmem : call.slot ∈ (shares (underlying group.definition) calls returned).map Prod.fst := by
      rw [map_fst_shares]
      exact List.mem_map_of_mem hcall
    simpa using hmem
  obtain ⟨earlier, later, hstrides, hearlier⟩ := hanswers _ hshare
  obtain ⟨mid, rest, hdeeds, hanswerer, hmid⟩ := exists_of_strides hstrides
  obtain ⟨seen, more, hanswered, rfl, -⟩ := exists_of_deeds hdeeds
  have hborn : call.slot.index < enrolments seen := by
    rw [hanswered] at recorded
    rw [← hmid] at hearlier
    exact born_of_collected recorded.left (mem_deeds_iff.1 (mem_of_mem_life (mem_strides.1 hearlier).1)) hcall
  refine ⟨outcome, ?_⟩
  have hlife : life (deeds (before ++ [(task, act)]) task) number = life (deeds before task) number ++ [act] := by
    rw [deeds_concat, if_pos rfl, life_concat, if_pos hactor]
  rcases order_of_splits (htrace.symm.trans hanswered) with ⟨-, hentry, -⟩ | ⟨between, rfl, -⟩ | ⟨between, rfl, -⟩
  · cases hentry
    cases hends
  · -- after its end the flush would not go on to answer
    obtain ⟨acts, hacts⟩ := life_prefix (deeds (before ++ [(task, act)]) task) (deeds between task) number
    rw [← deeds_append, List.append_assoc, List.singleton_append, hlife] at hacts
    have hstride : act.isStride = true := by
      cases act with
      | dropped =>
          have hdropped : .dropped ∈ life (deeds (before ++ (task, .dropped) :: between) task) number := by simp [hacts]
          have hkept := uninterrupted.kept
          rw [hanswered, deeds_append] at hkept
          exact absurd (mem_life_append _ hdropped) hkept
      | completed | givenUp | vacated => rfl
      | _ => cases hends
    rw [hacts, strides_append, strides_append, strides_singleton hstride, List.append_assoc] at hmid
    rw [hstrides, ← hmid, List.append_assoc, List.append_assoc, List.singleton_append] at follows
    exact absurd (follows.eq_nil_of_ends rfl hends) (by simp)
  · exact ⟨seen, task, between, rfl, hborn⟩

/-- The slot of a call is not closed if the flush that has collected the call is not interrupted. -/
theorem not_closes {calls : List Enrolled} {call : Enrolled}
    (hcollected : .acted (.collect group) calls ∈ life (deeds trace task) number)
    (uninterrupted : Uninterrupted trace system task number) (hcall : call ∈ calls) : ¬ Closes trace call.slot := by
  rintro ⟨before, other, act, after, htrace, hcloses, hunanswered⟩
  have recorded := (setting.books fresh runs).recorded
  cases hcloses with
  | abandon elsewhere habandoned hslot =>
      -- the batch was removed when it was collected, so the call was no longer in it
      obtain ⟨earlier, later, hcollect, -⟩ := exists_of_life hcollected
      have hcalls : calls = booked group earlier := recorded earlier task _ later hcollect
      obtain ⟨-, -, hentry⟩ := recorded.removed_once hcollect htrace (by simp [Act.removes]) (by simp [Act.removes])
        (hcalls ▸ hcall) habandoned hslot.symm
      cases hentry
  | ends hends hactor hagain htwin hslot =>
      have hlast {act : Act} {place : Nat} (hmem : act ∈ life (deeds before other) place) :
          act ∈ life (deeds trace other) place := by
        rw [htrace, deeds_append]
        exact mem_life_append _ hmem
      obtain ⟨rfl, rfl, -, -⟩ := collector_once recorded hcollected (hlast hagain) hcall htwin hslot.symm
      obtain ⟨outcome, hanswers⟩ :=
        setting.answered_before_end fresh runs hcollected uninterrupted hcall htrace hends hactor
      exact hunanswered outcome hanswers

/-- What a call receives is its share of what the function returned to the flush that has collected it. -/
theorem share_of_receives {calls : List Enrolled} {call : Enrolled} {returned : Outcome}
    (hcollected : .acted (.collect group) calls ∈ life (deeds trace task) number)
    (hreturned : Returned (life (deeds trace task) number) group (underlying group.definition) calls returned)
    (uninterrupted : Uninterrupted trace system task number) (hcall : call ∈ calls) {reply : Option Outcome}
    (hreceives : Receives trace call.slot reply) :
    (call.slot, received reply) ∈ shares (underlying group.definition) calls returned := by
  have recorded := (setting.books fresh runs).recorded
  cases reply with
  | none => exact absurd hreceives (setting.not_closes fresh runs hcollected uninterrupted hcall)
  | some outcome =>
      obtain ⟨running, place, other, more, result, hother, hshare⟩ := setting.share_of_answers fresh runs hreceives
      obtain ⟨twin, htwin, hslot⟩ : ∃ twin ∈ more, twin.slot = call.slot := by
        have hmem := List.mem_map_of_mem (f := Prod.fst) hshare
        rw [map_fst_shares] at hmem
        simpa using hmem
      obtain ⟨rfl, rfl, rfl, rfl⟩ := collector_once recorded hcollected hother.collected hcall htwin hslot.symm
      obtain rfl := hreturned.unique recorded hother hcall
      exact hshare

/-- What a call is told that waits for its answer goes back to the acts of all processes. -/
theorem receives_of_strides {args : List Value} {enrolment : Enrolment} {reply : Option Outcome} {earlier later : List Act}
    (hstrides : strides (life (deeds trace task) number) = earlier ++ .acted (.receive enrolment.slot) reply :: later)
    (henrolled : .acted (.enroll group args) enrolment ∈ earlier) : Receives trace enrolment.slot reply := by
  have accounts := setting.accounts fresh runs
  obtain ⟨acts, rest, hdeeds, -, rfl⟩ := exists_of_strides hstrides
  obtain ⟨seen, more, rfl, rfl, -⟩ := exists_of_deeds hdeeds
  have hborn : enrolment.slot.index < enrolments seen := by
    have hmem : (task, .acted (.enroll group args) enrolment) ∈ seen :=
      mem_deeds_iff.1 (mem_of_mem_life (mem_strides.1 henrolled).1)
    obtain ⟨before, after, rfl⟩ := List.append_of_mem hmem
    obtain ⟨hslot, -⟩ := accounts.books.recorded.left before task _ after rfl
    rw [hslot, enrolments_append]
    simp [enrolments, Act.enrolls]
  exact (accounts.receipts seen task enrolment.slot reply more rfl hborn).append _

end Setting

/-! ## Delivery -/

/-- What becomes of the call of frame `number` of `task` that a flush has collected, in frame `place` of `flusher`. -/
inductive Delivered (trace : Trace) (task : TaskId) (number : Nat) (group : BatchGroup) (function : Function)
    (call : Enrolled) (opened : Bool) (flusher : TaskId) (place : Nat) (calls : List Enrolled) : Prop
  /-- It completes with its share of what the function returned to the flush. -/
  | shared {returned outcome : Outcome} (hreturned : Returned (life (deeds trace flusher) place) group function calls returned)
      (hcompleted : .completed outcome ∈ life (deeds trace task) number)
      (hshare : ShareOf function calls call returned outcome) :
      Delivered trace task number group function call opened flusher place calls
  /-- It was itself to launch the flush of its batch, was told that this failed, and completes with the error. -/
  | refused {returned : Outcome} {error : Error} (window : Nat)
      (hreturned : Returned (life (deeds trace flusher) place) group function calls returned) (hopened : opened = true)
      (hcompleted : .completed (.error error) ∈ life (deeds trace task) number)
      (htold : [.performed (launch group function window), .resumed (.error error)] <:+:
        strides (life (deeds trace task) number)) :
      Delivered trace task number group function call opened flusher place calls

/-- A call gets its share of what the function returned to the flush that has collected it, as long as neither its own
service nor the flush is interrupted; unless it was itself to launch the flush and was told that this failed. -/
theorem Setting.delivered (setting : Setting machine underlying) (fresh : Fresh underlying first)
    (runs : Runs machine first trace system) {args : List Value} {enrolment : Enrolment} {flusher : TaskId} {place : Nat}
    {calls : List Enrolled} {call : Enrolled}
    (henrolled : .acted (.enroll group args) enrolment ∈ life (deeds trace task) number)
    (served : Uninterrupted trace system task number)
    (hcollected : .acted (.collect group) calls ∈ life (deeds trace flusher) place)
    (uninterrupted : Uninterrupted trace system flusher place) (hcall : call ∈ calls)
    (hslot : call.slot = enrolment.slot) :
    Delivered trace task number group (underlying group.definition) call enrolment.opened flusher place calls := by
  obtain ⟨kind, window, tag, begun, rest, hpushed, -, hstrides, joining⟩ := setting.service_of_enroll fresh runs henrolled
  obtain ⟨outcome, hcompleted⟩ := runs.completed_of_rest served.rest hpushed (runs.not_mem_givenUp served.calm number)
    served.kept
  obtain ⟨returned, hreturned, -, -⟩ := setting.flushed fresh runs hcollected uninterrupted
  have hstride : .completed outcome ∈ rest := by
    have hmem : .completed outcome ∈ strides (life (deeds trace task) number) := mem_strides.2 ⟨hcompleted, rfl⟩
    rw [hstrides] at hmem
    simpa using hmem
  have hcut {acts : List Act} (cut : Cut acts) : .completed outcome ∉ acts := cut.not_mem (by simp)
  -- how far the service of the call got: it has completed, so no prelude and no service that was cut short
  cases joining with
  | opening hopened hprelude => cases hprelude _ hstride
  | launching hopened cut => exact absurd (by simpa using hstride) (hcut cut)
  | @refused acts hopened error hfailing =>
      have hfailed : outcome = .error error := by
        rcases hfailing with cut | ⟨-, rfl⟩ | ⟨-, rest, rfl, cut | rfl⟩
        · exact absurd (by simpa using hstride) (hcut cut)
        · simpa using hstride
        · exact absurd (by simpa using hstride) (hcut cut)
        · simpa using hstride
      refine .refused window hreturned hopened (hfailed ▸ hcompleted) ?_
      exact ⟨.resumed begun :: .acted (.enroll group args) enrolment ::
          [.acted (.emit (.batchOpened (underlying group.definition).name group.key)) ()], acts, by simp [hstrides]⟩
  | @waiting before after hlaunched hwaiting =>
      have hbefore : .completed outcome ∉ before := by
        rcases hlaunched with ⟨-, rfl⟩ | ⟨-, value, rfl⟩ <;> simp
      have hafter : .completed outcome ∈ after := (List.mem_append.1 hstride).resolve_left hbefore
      rcases hwaiting with cut | ⟨reply, rest, rfl, cut | rfl⟩
      · exact absurd hafter (hcut cut)
      · exact absurd (by simpa using hafter) (hcut cut)
      · obtain rfl : outcome = received reply := by simpa using hafter
        rw [← List.cons_append, ← List.cons_append] at hstrides
        have hreceives := setting.receives_of_strides fresh runs hstrides (List.mem_cons_of_mem _ List.mem_cons_self)
        have hshare := setting.share_of_receives fresh runs hcollected hreturned uninterrupted hcall (hslot ▸ hreceives)
        have hnodup := nodup_of_collected (setting.books fresh runs).recorded hcollected
        exact .shared hreturned hcompleted (shareOf_of_mem_shares hnodup hcall hshare)

end Batch
end EffectMachine
