import EffectMachine.Proofs.Batch.Isolation

/-!
# Every call is part of one invocation

Batching loses, duplicates and misroutes nothing.  A call that takes part in a batch is part of one invocation of its
function, which is made with the arguments of the calls of one group in the order in which they were enrolled, and it
gets the item at its own place of what the function returns.  A call that does not take part gets an invocation of its
own.

* `Invokes` says of a frame that it makes one invocation of a function.
* `Batch.booked_suffix` says that an open batch has the calls which were enrolled last in its group.
* `Batch.Setting.invocation_of_performs` is about all invocations that batches make, and `Batch.Setting.takes_part_once`
  about the calls that are part of them.
* `Batch.each_call_once` collects this, together with the calls that run alone.
-/

namespace EffectMachine

/-! ## Invocations -/

/-- The effect that an act performs, if it does. -/
def Act.effect? : Act → Option Effect
  | .performed effect => some effect
  | _ => none

/-- The effects that some acts perform, in order. -/
def performances (acts : List Act) : List Effect :=
  acts.filterMap Act.effect?

theorem performances_append (acts more : List Act) :
    performances (acts ++ more) = performances acts ++ performances more :=
  List.filterMap_append

/-- Strides are all that performs effects. -/
@[simp] theorem performances_strides (acts : List Act) : performances (strides acts) = performances acts := by
  unfold performances strides
  rw [List.filterMap_filter]
  congr 1
  funext act
  cases act <;> rfl

theorem performances_eq_nil {acts : List Act} (hnone : ∀ effect, .performed effect ∉ acts) : performances acts = [] := by
  refine List.filterMap_eq_nil_iff.2 fun act hmem => ?_
  cases act with
  | performed effect => exact absurd hmem (hnone effect)
  | _ => rfl

/-- A frame makes one invocation of a function: it performs nothing but the call of it, with some argument lists, and the
function is run with these right then. -/
structure Invokes (machine : Machine) (trace : Trace) (task : TaskId) (number : Nat) (function : Function)
    (calls : List (List Value)) : Prop where
  once : performances (life (deeds trace task) number) = [.call function (calls.map Value.list)]
  run : ∃ before after, deeds trace task = before ++ .performed (.call function (calls.map Value.list)) ::
      .pushed (machine.invoke function (calls.map Value.list)) none :: after ∧
    (Roll.after before).actor (.performed (.call function (calls.map Value.list))) = number

/-- No plugin has a say in the calls of functions, nor in the running and the forking of computations. -/
structure Undiverted (machine : Machine) : Prop extends Batch.Unintercepted machine where
  call : machine.registry.hasHandlers Kind.call = false
  calls : machine.registry.validator? Kind.call = none
  forks : machine.registry.validator? Kind.fork = none

/-- The call of a function that nobody has a say in runs the function. -/
theorem Machine.handleActs_call {machine : Machine} (hcall : machine.registry.hasHandlers Kind.call = false)
    (hvalid : machine.registry.validator? Kind.call = none) (function : Function) (args : List Value) (run : Run) :
    machine.handleActs (.call function args) run = [.pushed (machine.invoke function args) none] := by
  have hvalidate : machine.registry.validate (.call function args) = .done none := by
    simp [Registry.validate, Registry.validateOne, Registry.terminalRefusal, Effect.kind, hvalid]
  exact (handle_eq_core hvalidate hcall run).2

/-- A frame that performs nothing but the call of a function invokes it, if its process takes note of no cancellation. -/
theorem Runs.invokes {machine : Machine} {first : Host} {trace : Trace} {system : System} {task : TaskId} {number : Nat}
    {function : Function} {calls : List (List Value)} (runs : Runs machine first trace system)
    (undiverted : Undiverted machine) (hcalm : .noticed ∉ deeds trace task)
    (honce : performances (life (deeds trace task) number) = [.call function (calls.map Value.list)]) :
    Invokes machine trace task number function calls := by
  have hmem : .call function (calls.map Value.list) ∈ performances (life (deeds trace task) number) := by simp [honce]
  obtain ⟨act, hact, hperforms⟩ := List.mem_filterMap.1 hmem
  obtain ⟨rfl⟩ : act = .performed (.call function (calls.map Value.list)) := by
    cases act with
    | performed effect => rw [Option.some.inj hperforms]
    | _ => cases hperforms
  obtain ⟨before, after, hdeeds, hactor⟩ := exists_of_mem_life hact
  obtain ⟨descent, origins⟩ := runs.origins
  rcases origins.handled task before _ after hdeeds with ⟨rest, rfl⟩ | ⟨run, rest, -, -, rfl⟩
  · exact absurd (by simp [hdeeds]) hcalm
  · rw [Machine.handleActs_call undiverted.call undiverted.calls] at hdeeds
    exact ⟨honce, before, rest, hdeeds, hactor⟩

namespace Batch

variable {machine : Machine} {underlying : Nat → Function} {first : Host} {trace : Trace} {system : System}
variable {descent : Descent} {task opener flusher : TaskId} {number frame place window : Nat} {group : BatchGroup}
variable {function : Function} {args : List Value} {acts : List Act}

/-! ## What batches consist of -/

/-- All calls that were ever enrolled in batches of a group, in order. -/
def enrolledIn (group : BatchGroup) (trace : Trace) : List Enrolled :=
  trace.flatMap fun entry => entry.2.joins group

/-- The calls of an open batch are those which were enrolled last in its group, in order. -/
theorem booked_suffix (group : BatchGroup) (trace : Trace) : booked group trace <:+ enrolledIn group trace := by
  induction trace using List.reverseRecOn with
  | nil => exact List.suffix_rfl
  | append_singleton trace entry ih =>
      obtain ⟨task, act⟩ := entry
      have hlater : enrolledIn group (trace ++ [(task, act)]) = enrolledIn group trace ++ act.joins group := by
        simp [enrolledIn]
      rw [booked_concat, hlater]
      split
      · exact List.nil_suffix
      · obtain ⟨earlier, hearlier⟩ := ih
        exact ⟨earlier, by rw [← List.append_assoc, hearlier]⟩

/-! ## Courses to the end -/

/-- Before it has its turn a flush performs nothing. -/
theorem performances_of_isPrelude (hprelude : ∀ act ∈ acts, act.isPrelude = true) : performances acts = [] :=
  performances_eq_nil fun _ hmem => Bool.false_ne_true (hprelude _ hmem)

/-- Whatever a flush performs is the one call of its function, for the calls that it has collected. -/
theorem Flushing.performances_eq (flushing : Flushing group function acts) {effect : Effect} (hmem : .performed effect ∈ acts) :
    ∃ calls, .acted (.collect group) calls ∈ acts ∧ effect = invocation function calls := by
  cases flushing with
  | waiting hprelude => cases hprelude _ hmem
  | calling calls hprelude hasking hunanswered =>
      refine ⟨calls, by simp, ?_⟩
      rcases List.mem_append.1 hmem with hearly | hlate
      · cases hprelude _ hearly
      · simp only [List.mem_cons, reduceCtorEq, false_or] at hlate
        rcases hasking _ hlate with hact | hact
        · cases hact
        · exact Act.performed.inj hact
  | answering begun calls returned hprelude hbegun hreplies hdone =>
      refine ⟨calls, by simp, ?_⟩
      rcases List.mem_append.1 hmem with hearly | hlate
      · cases hprelude _ hearly
      · simp only [List.mem_cons, reduceCtorEq, false_or, Act.performed.injEq] at hlate
        rcases hlate with hact | hlate
        · exact hact
        · exact (hreplies _ hlate).elim

/-- A flush that has answered calls its function once. -/
theorem Flushing.performances_of_completed (flushing : Flushing group function acts) {calls : List Enrolled}
    {outcome : Outcome} (hcollected : .acted (.collect group) calls ∈ acts) (hcompleted : .completed outcome ∈ acts) :
    performances acts = [invocation function calls] := by
  cases flushing with
  | waiting hprelude => cases hprelude _ hcompleted
  | calling others hprelude hasking hunanswered =>
      rcases List.mem_append.1 hcompleted with hmem | hmem
      · cases hprelude _ hmem
      · rcases List.mem_cons.1 hmem with hact | hmem
        · cases hact
        · rcases hasking _ hmem with hact | hact <;> cases hact
  | @answering before after begun others returned hprelude hbegun hreplies hdone =>
      have hsame : others = calls := by
        rcases List.mem_append.1 hcollected with hmem | hmem
        · cases Act.isBatch_of_isPrelude (hprelude _ hmem)
        · simp only [List.mem_cons, reduceCtorEq, false_or] at hmem
          rcases hmem with hact | hact | hmem
          · cases hact
            rfl
          · cases hact
          · cases hreplies _ hmem
      have hafter : performances after = [] := performances_eq_nil fun _ hmem => hreplies _ hmem
      rw [performances_append, performances_of_isPrelude hprelude, List.nil_append]
      change invocation function others :: performances after = [invocation function calls]
      rw [hafter, hsame]

/-- What a call that runs alone gets when the function has returned: the first item of a list, and else an error. -/
inductive AloneShare (function : Function) : Outcome → Outcome → Prop
  | first (value : Value) (rest : List Value) : AloneShare function (.ok (.list (value :: rest))) (.ok value)
  | empty : AloneShare function (.ok (.list [])) (.error (.type ("batch: " ++ function.name ++ " returned no result")))
  | unlisted {value : Value} (hvalue : ∀ results, value ≠ .list results) :
      AloneShare function (.ok value) (.error (.type ("expected a list, found " ++ value.kindName)))
  | failed (error : Error) : AloneShare function (.error error) (.error error)

/-- A call that runs alone and completes has called its function once, and gets its share of what that returned. -/
theorem aloneShare_of_completes {outcome : Outcome} (completes : Completes (alone function args) acts outcome) :
    ∃ returned, acts = [.acted (.emit (.callUnbatched function.name)) (), .performed (.call function [.list args]),
      .resumed returned, .completed outcome] ∧ AloneShare function returned outcome := by
  cases completes with
  | act completes =>
      cases completes with
      | @perform _ _ returned _ _ completes =>
          refine ⟨returned, ?_⟩
          cases returned with
          | error error =>
              cases completes
              exact ⟨rfl, .failed error⟩
          | ok value =>
              cases value with
              | list results =>
                  cases results with
                  | nil =>
                      cases completes
                      exact ⟨rfl, .empty⟩
                  | cons result results =>
                      cases completes
                      exact ⟨rfl, .first result results⟩
              | _ =>
                  cases completes
                  exact ⟨rfl, .unlisted nofun⟩

/-- A call that runs alone makes one invocation, with its own arguments only, and comes to the first result. -/
structure RunsAlone (function : Function) (args : List Value) (acts : List Act) (outcome : Outcome) : Prop where
  once : performances acts = [.call function [.list args]]
  outcome : ∃ returned, .resumed returned ∈ acts ∧ .completed outcome ∈ acts ∧
    (∀ result rest, returned = .ok (.list (result :: rest)) → outcome = .ok result) ∧
    ∀ error, returned = .error error → outcome = .error error

/-- What a call does that runs alone and completes. -/
theorem runsAlone_of_completes {outcome : Outcome} (completes : Completes (alone function args) acts outcome) :
    RunsAlone function args acts outcome := by
  obtain ⟨returned, rfl, hshare⟩ := aloneShare_of_completes completes
  refine ⟨rfl, returned, by simp, by simp, ?_, ?_⟩
  · rintro result rest rfl
    cases hshare with
    | first => rfl
    | unlisted hvalue => exact absurd rfl (hvalue _)
  · rintro error rfl
    cases hshare
    rfl

/-! ## Calls and their invocations -/

/-- A call of a batched function is served in a frame, by a plugin with a window. -/
def Serves (trace : Trace) (task : TaskId) (number batcher window definition : Nat) (function : Function)
    (key : Option BatchKey) (args : List Value) : Prop :=
  ∃ kind tag, .pushed (handle batcher window (.custom kind (.batchCall definition function key args))) tag ∈
    life (deeds trace task) number

/-- A flush that is left to itself until it ends: it is begun, nothing interrupts it and nothing is deferred on its
frame. -/
structure LeftAlone (trace : Trace) (system : System) (task : TaskId) (number : Nat) : Prop extends
    Uninterrupted trace system task number where
  begun : life (deeds trace task) number ≠ []
  undeferred : ∀ deferred, .deferred deferred ∉ life (deeds trace task) number

/-- A call that was enrolled stands at some place among the calls of one invocation of its function, which is made in frame
`place` of `flusher`, and it is part of no other. -/
structure PartOf (machine : Machine) (underlying : Nat → Function) (trace : Trace) (group : BatchGroup) (call : Enrolled)
    (flusher : TaskId) (place : Nat) (calls : List Enrolled) (position : Nat) : Prop where
  member : calls[position]? = some call
  collected : .acted (.collect group) calls ∈ life (deeds trace flusher) place
  invokes : Invokes machine trace flusher place (underlying group.definition) (calls.map Enrolled.args)
  only : ∀ running frame other (others : List Enrolled) index twin, .acted (.collect other) others ∈ life (deeds trace running) frame →
    others[index]? = some twin → twin.slot = call.slot →
    running = flusher ∧ frame = place ∧ other = group ∧ others = calls ∧ index = position

/-- A call with a key that counts takes part in a batch. -/
theorem body_handle_of_isTruthy {kind : String} (htruthy : group.key.isTruthy = true) :
    (handle group.batcher window (.custom kind (.batchCall group.definition function (some group.key) args))).body =
      enrolled group function window args := by
  have hpayload : (Effect.custom kind (.batchCall group.definition function (some group.key) args)).intoPayload .batchCall =
      .ok (.batchCall group.definition function (some group.key) args) := rfl
  have hkey : (some group.key).filter BatchKey.isTruthy = some group.key := by simp [htruthy]
  simp only [handle, Computation.named, hpayload, hkey]

namespace Setting

variable (setting : Setting machine underlying) (fresh : Fresh underlying first)
  (runs : Runs machine first trace system)
include runs

/-- A call that is served and not interrupted completes. -/
theorem completes_of_serves {batcher definition : Nat} {key : Option BatchKey}
    (hserves : Serves trace task number batcher window definition function key args)
    (served : Uninterrupted trace system task number) : ∃ kind begun rest outcome,
      strides (life (deeds trace task) number) = .resumed begun :: rest ∧
      Completes (handle batcher window (.custom kind (.batchCall definition function key args))).body rest outcome := by
  obtain ⟨kind, tag, hpushed⟩ := hserves
  obtain ⟨outcome, hcompleted⟩ := runs.completed_of_rest served.rest hpushed (runs.not_mem_givenUp served.calm number)
    served.kept
  obtain ⟨last, follows⟩ := follows_of_pushed runs hpushed
  obtain ⟨begun, rest, hstrides, completes⟩ := follows.completes (mem_strides.2 ⟨hcompleted, rfl⟩)
  exact ⟨kind, begun, rest, outcome, hstrides, completes⟩

/-- What a call does without a key that counts: it runs alone. -/
theorem strides_of_alone {batcher definition : Nat} {key : Option BatchKey}
    (hserves : Serves trace task number batcher window definition function key args)
    (served : Uninterrupted trace system task number) (hkey : key.filter BatchKey.isTruthy = none) :
    ∃ begun acts outcome, strides (life (deeds trace task) number) = .resumed begun :: acts ∧
      Completes (alone function args) acts outcome := by
  obtain ⟨kind, begun, rest, outcome, hstrides, completes⟩ := completes_of_serves runs hserves served
  have hbody : (handle batcher window (.custom kind (.batchCall definition function key args))).body = alone function args := by
    have hpayload : (Effect.custom kind (.batchCall definition function key args)).intoPayload .batchCall =
        .ok (.batchCall definition function key args) := rfl
    simp [handle, Computation.named, hpayload, hkey]
  rw [hbody] at completes
  exact ⟨begun, rest, outcome, hstrides, completes⟩

/-- A call without a key that counts runs alone, in one invocation of its own. -/
theorem alone_of_serves (undiverted : Undiverted machine) {batcher definition : Nat} {key : Option BatchKey}
    (hserves : Serves trace task number batcher window definition function key args)
    (served : Uninterrupted trace system task number) (hkey : key.filter BatchKey.isTruthy = none) :
    ∃ outcome, RunsAlone function args (strides (life (deeds trace task) number)) outcome ∧
      Invokes machine trace task number function [args] := by
  obtain ⟨begun, rest, outcome, hstrides, completes⟩ := strides_of_alone runs hserves served hkey
  obtain ⟨honce, returned, hreturned, hcompleted, hshare⟩ := runsAlone_of_completes completes
  have hall : RunsAlone function args (strides (life (deeds trace task) number)) outcome := by
    rw [hstrides]
    exact ⟨honce, returned, List.mem_cons_of_mem _ hreturned, List.mem_cons_of_mem _ hcompleted, hshare⟩
  refine ⟨outcome, hall, runs.invokes undiverted served.calm ?_⟩
  rw [← performances_strides]
  exact hall.once

/-- A call with a key that counts is enrolled in a batch of its group. -/
theorem enrolled_of_serves (hserves : Serves trace task number group.batcher window group.definition function
      (some group.key) args)
    (served : Uninterrupted trace system task number) (htruthy : group.key.isTruthy = true) :
    ∃ enrolment, .acted (.enroll group args) enrolment ∈ life (deeds trace task) number := by
  obtain ⟨kind, begun, rest, outcome, hstrides, completes⟩ := completes_of_serves runs hserves served
  rw [body_handle_of_isTruthy htruthy] at completes
  cases completes with
  | @act _ _ enrolment => exact ⟨enrolment, (mem_strides.1 (by rw [hstrides]; simp)).1⟩

include setting fresh

/-- Every invocation that a batch makes is for some calls of one group, in the order in which they were enrolled. -/
theorem invocation_of_performs (unintercepted : Unintercepted machine)
    (lineage : Lineage machine underlying first descent trace system.parked) {tag : Option HandlerTag} {effect : Effect}
    (hpushed : .pushed (flush group (underlying group.definition) window) tag ∈ life (deeds trace flusher) place)
    (hperformed : .performed effect ∈ life (deeds trace flusher) place) :
    ∃ before calls after, trace = before ++ (flusher, .acted (.collect group) calls) :: after ∧
      (Roll.after (deeds before flusher)).actor (.acted (.collect group) calls) = place ∧
      effect = invocation (underlying group.definition) calls ∧ calls ≠ [] ∧ calls <:+ enrolledIn group before := by
  obtain ⟨calls, hcollected, heffect⟩ :=
    (flushing_of_pushed runs hpushed).performances_eq (mem_strides.2 ⟨hperformed, rfl⟩)
  have hmem := (mem_strides.1 hcollected).1
  obtain ⟨before, after, htrace, hactor⟩ := exists_of_life hmem
  have hcalls : calls = booked group before := (setting.books fresh runs).recorded before flusher _ after htrace
  obtain ⟨_, _, _, enrolment, rest, _, -, -, hfirst, -⟩ :=
    setting.opening_of_collect fresh runs unintercepted lineage hmem
  refine ⟨before, calls, after, htrace, hactor, heffect, ?_, ?_⟩
  · rw [hfirst]
    exact List.cons_ne_nil _ _
  · rw [hcalls]
    exact booked_suffix group before

/-- A call that a flush has collected is part of the invocation that this flush makes, and of no other. -/
theorem partOf_of_collected (undiverted : Undiverted machine) {calls : List Enrolled} {call : Enrolled} {position : Nat}
    (hcollected : .acted (.collect group) calls ∈ life (deeds trace flusher) place)
    (uninterrupted : Uninterrupted trace system flusher place) (hcall : calls[position]? = some call) :
    PartOf machine underlying trace group call flusher place calls position := by
  have recorded := (setting.books fresh runs).recorded
  obtain ⟨length, tag, hpushed⟩ := setting.flush_of_collect fresh runs hcollected
  obtain ⟨_, -, hcompleted, -⟩ := setting.flushed fresh runs hcollected uninterrupted
  have honce := (flushing_of_pushed runs hpushed).performances_of_completed (mem_strides.2 ⟨hcollected, rfl⟩)
    (mem_strides.2 ⟨hcompleted, rfl⟩)
  rw [performances_strides] at honce
  refine ⟨hcall, hcollected, runs.invokes undiverted uninterrupted.calm honce, ?_⟩
  intro running frame other others index twin hagain htwin hslot
  obtain ⟨rfl, rfl, rfl, rfl⟩ := collector_once recorded hagain hcollected (List.mem_of_getElem? htwin)
    (List.mem_of_getElem? hcall) hslot
  -- the slots of the calls of a batch are different
  have hnodup := nodup_of_collected recorded hcollected
  have hfirst : (others.map Enrolled.slot)[index]? = some call.slot := by simp [htwin, hslot]
  have hsecond : (others.map Enrolled.slot)[position]? = some call.slot := by simp [hcall]
  have hless : index < (others.map Enrolled.slot).length := (List.getElem?_eq_some_iff.1 hfirst).1
  exact ⟨rfl, rfl, rfl, rfl, (List.getElem?_inj hless hnodup).1 (hfirst.trans hsecond.symm)⟩

/-- The flush that was launched for a batch collects the calls of this batch, if it is left alone. -/
theorem collected_of_openedFor (unintercepted : Unintercepted machine)
    (lineage : Lineage machine underlying first descent trace system.parked) {enrolment opening : Enrolment}
    {more : List Value} (openedFor : OpenedFor trace task group args enrolment opener frame more opening)
    (hlaunched : LaunchedBy descent trace opener frame (flush group (underlying group.definition) window) flusher place)
    (alone : LeftAlone trace system flusher place) :
    ∃ calls : List Enrolled, .acted (.collect group) calls ∈ life (deeds trace flusher) place ∧
      ⟨args, enrolment.slot⟩ ∈ calls := by
  obtain ⟨(calls : List Enrolled), hcollected⟩ := exists_collected runs
    (pushed_of_launch unintercepted lineage hlaunched alone.begun) alone.toUninterrupted
  obtain ⟨before, after, earlier, mid, htrace, hbatch, hframe, hopen⟩ := openedFor.kept
  exact ⟨calls, hcollected, setting.mem_of_collect unintercepted fresh runs lineage hlaunched openedFor.opened htrace hbatch
    hframe hopen hcollected⟩

end Setting

/-- A call is part of the invocation that a flush makes, and of no other, and gets its share of what the function returns. -/
structure SharesOnce (machine : Machine) (underlying : Nat → Function) (trace : Trace) (task : TaskId) (number : Nat)
    (group : BatchGroup) (call : Enrolled) (flusher : TaskId) (place : Nat) (calls : List Enrolled) (position : Nat)
    (returned outcome : Outcome) : Prop where
  partOf : PartOf machine underlying trace group call flusher place calls position
  returns : Returned (life (deeds trace flusher) place) group (underlying group.definition) calls returned
  completed : .completed outcome ∈ life (deeds trace task) number
  share : ShareAt (underlying group.definition) calls.length position returned outcome

/-- A call takes part in the batch that some call has opened, which is served in frame `frame` of `opener` with a window of
some length. -/
structure TakesPart (machine : Machine) (underlying : Nat → Function) (descent : Descent) (trace : Trace) (system : System)
    (task : TaskId) (number : Nat) (group : BatchGroup) (args : List Value) (enrolment : Enrolment) (opener : TaskId)
    (frame : Nat) (more : List Value) (opening : Enrolment) (length : Nat) : Prop where
  enrolled : .acted (.enroll group args) enrolment ∈ life (deeds trace task) number
  openedFor : OpenedFor trace task group args enrolment opener frame more opening
  opens : Serves trace opener frame group.batcher length group.definition (underlying group.definition) (some group.key) more
  /-- If the service of the opener is not interrupted, it launches a flush, which can be forked when there is a scheduler;
  and if the flush is left alone, the call is part of its invocation only, and gets its share. -/
  flushed : Uninterrupted trace system opener frame → (length ≠ 0 → system.parked.scheduled = true) → ∃ flusher place,
    LaunchedBy descent trace opener frame (flush group (underlying group.definition) length) flusher place ∧
    (LeftAlone trace system flusher place → ∃ calls position returned outcome,
      SharesOnce machine underlying trace task number group ⟨args, enrolment.slot⟩ flusher place calls position returned
        outcome)

/-- A call with a key that counts takes part in the batch that some call has opened. -/
theorem Setting.takes_part_once (setting : Setting machine underlying) (fresh : Fresh underlying first)
    (runs : Runs machine first trace system) (undiverted : Undiverted machine)
    (lineage : Lineage machine underlying first descent trace system.parked)
    (hserves : Serves trace task number group.batcher window group.definition (underlying group.definition)
      (some group.key) args)
    (served : Uninterrupted trace system task number) (htruthy : group.key.isTruthy = true) :
    ∃ enrolment opener frame more opening length, TakesPart machine underlying descent trace system task number group args
      enrolment opener frame more opening length := by
  have unintercepted := undiverted.toUnintercepted
  have recorded := (setting.books fresh runs).recorded
  obtain ⟨enrolment, henrolled⟩ := enrolled_of_serves runs hserves served htruthy
  obtain ⟨opener, frame, more, opening, openedFor, hself⟩ := exists_openedFor recorded henrolled
  obtain ⟨kind, length, tag, hopener, hlaunches⟩ :=
    setting.launched_of_opening unintercepted fresh runs lineage openedFor.enrolled openedFor.opened
  refine ⟨enrolment, opener, frame, more, opening, length, henrolled, openedFor, ⟨kind, tag, hopener⟩, ?_⟩
  intro hopening hscheduled
  obtain ⟨flusher, place, hlaunched⟩ := hlaunches hopening undiverted.forks hscheduled
  refine ⟨flusher, place, hlaunched, fun alone => ?_⟩
  obtain ⟨calls, hcollected, hcall⟩ := setting.collected_of_openedFor fresh runs unintercepted lineage openedFor hlaunched alone
  cases setting.delivered fresh runs henrolled served hcollected alone.toUninterrupted hcall rfl with
  | @shared returned outcome hreturned hcompleted hshare =>
      obtain ⟨position, hposition, hshare⟩ := hshare
      exact ⟨calls, position, returned, outcome, setting.partOf_of_collected fresh runs undiverted hcollected
        alone.toUninterrupted hposition, hreturned, hcompleted, hshare⟩
  | @refused _ error again _ hown _ htold =>
      -- the flush was launched and left alone, so the call that launched it was not told an error
      obtain ⟨rfl, rfl⟩ := hself hown
      exact absurd htold (setting.not_told_of_undeferred unintercepted fresh runs hlaunched ⟨calls, hcollected⟩
        alone.toUninterrupted alone.undeferred)

/-- Every call of a batched function is part of one invocation. -/
structure EachOnce (machine : Machine) (underlying : Nat → Function) (first : Host) (trace : Trace) (system : System) :
    Prop where
  /-- A call with a key that counts takes part in a batch. -/
  keyed : ∃ descent, Lineage machine underlying first descent trace system.parked ∧
    ∀ task number group window args,
      Serves trace task number group.batcher window group.definition (underlying group.definition) (some group.key) args →
      Uninterrupted trace system task number → group.key.isTruthy = true →
      ∃ enrolment opener frame more opening length, TakesPart machine underlying descent trace system task number group args
        enrolment opener frame more opening length
  /-- An invocation that a batch makes is for calls of one group, at least one: those which were enrolled last, in order. -/
  batched : ∀ flusher place group window tag effect,
    .pushed (flush group (underlying group.definition) window) tag ∈ life (deeds trace flusher) place →
    .performed effect ∈ life (deeds trace flusher) place →
    ∃ before calls after, trace = before ++ (flusher, .acted (.collect group) calls) :: after ∧
      (Roll.after (deeds before flusher)).actor (.acted (.collect group) calls) = place ∧
      effect = invocation (underlying group.definition) calls ∧ calls ≠ [] ∧ calls <:+ enrolledIn group before
  /-- Every other call has an invocation of its own. -/
  unkeyed : ∀ task number batcher window definition function key args,
    Serves trace task number batcher window definition function key args → Uninterrupted trace system task number →
    key.filter BatchKey.isTruthy = none →
    ∃ outcome, RunsAlone function args (strides (life (deeds trace task) number)) outcome ∧
      Invokes machine trace task number function [args]

/-- Batching loses, duplicates and misroutes nothing, when no plugin has a say in calls, in the running of computations and
in forks. -/
theorem each_call_once (setting : Setting machine underlying) (undiverted : Undiverted machine)
    (fresh : Fresh underlying first) (runs : Runs machine first trace system) :
    EachOnce machine underlying first trace system := by
  obtain ⟨descent, lineage⟩ := setting.lineage undiverted.toUnintercepted fresh runs
  refine ⟨⟨descent, lineage, ?_⟩, ?_, ?_⟩
  · intro task number group window args hserves served htruthy
    exact setting.takes_part_once fresh runs undiverted lineage hserves served htruthy
  · intro flusher place group window tag effect hpushed hperformed
    exact setting.invocation_of_performs fresh runs undiverted.toUnintercepted lineage hpushed hperformed
  · intro task number batcher window definition function key args hserves served hkey
    exact Setting.alone_of_serves runs undiverted hserves served hkey

/-! ## Two calls, and one that cannot be flushed -/

/-- A host, with a scheduler or without, on which a call is made by each of some callers. -/
def callingOn (scheduled : Bool) (args : List Value) : Host :=
  { callers (args.map fun arg => (.blank 0, .perform (callBatched arg) .done)) with scheduled }

/-- What becomes of the calls. -/
def calling (scheduled : Bool) (args : List Value) (window : Nat) : Trace × System :=
  ({ host := callingOn scheduled args } : System).execute (echoing window) 80

theorem plain_callBatched (arg : Value) (passed : BatchGroup → Prop) :
    (Body.perform (callBatched arg) .done).Plain (fun _ => shared) passed :=
  ⟨trivial, fun _ => trivial⟩

theorem undiverted_echoing (window : Nat) : Undiverted (echoing window) :=
  ⟨unintercepted_echoing window, rfl, rfl, rfl⟩

section Calling

variable {scheduled : Bool} {args : List Value} {window : Nat}

theorem fresh_callingOn (scheduled : Bool) (args : List Value) : Fresh (fun _ => shared) (callingOn scheduled args) where
  clients := by
    intro process hmem
    obtain ⟨call, hcall, hactivity⟩ := of_mem_callers hmem
    obtain ⟨arg, -, rfl⟩ := List.mem_map.1 hcall
    exact ⟨_, hactivity, plain_callBatched arg⟩
  batches := batches_callers _

theorem runs_calling : Runs (echoing window) (callingOn scheduled args) (calling scheduled args window).1
    (calling scheduled args window).2 := by
  have hnew : ∀ process ∈ (callingOn scheduled args).processes, process.activity.stack? = none := new_callers _
  exact (Runs.start hnew).execute 80

/-- What enrolls a call serves one. -/
theorem serves_of_enrolls {group : BatchGroup}
    (henrolls : enrolls group (life (deeds (calling scheduled args window).1 task) number) = true) :
    ∃ length more, Serves (calling scheduled args window).1 task number group.batcher length group.definition shared
      (some group.key) more := by
  obtain ⟨more, enrolment, henrolled⟩ := enrolled_of_enrolls henrolls
  obtain ⟨kind, length, tag, -, -, hpushed, -⟩ :=
    (setting_echoing window).service_of_enroll (fresh_callingOn scheduled args) runs_calling henrolled
  exact ⟨length, more, kind, tag, hpushed⟩

end Calling

/-- Two calls that are part of one invocation: the second gets the item at its own place. -/
theorem each_call_once_pair : ∃ args enrolment calls position returned outcome,
    PartOf (echoing 10) (fun _ => shared) (calling true [.int 1, .int 2] 10).1 ⟨0, 0, .str "k"⟩
      ⟨args, (enrolment : Enrolment).slot⟩ ⟨2⟩ 1 calls position ∧
    .completed outcome ∈ life (deeds (calling true [.int 1, .int 2] 10).1 ⟨1⟩) 2 ∧
    ShareAt shared calls.length position returned outcome := by
  have hquiet : undisturbed (calling true [.int 1, .int 2] 10) ⟨0⟩ = true ∧
      undisturbed (calling true [.int 1, .int 2] 10) ⟨1⟩ = true ∧
      undisturbed (calling true [.int 1, .int 2] 10) ⟨2⟩ = true := by
    decide +kernel
  have hcollects : collects ⟨0, 0, .str "k"⟩ (life (deeds (calling true [.int 1, .int 2] 10).1 ⟨2⟩) 1) = true := by
    decide +kernel
  have henrolls : enrolls ⟨0, 0, .str "k"⟩ (life (deeds (calling true [.int 1, .int 2] 10).1 ⟨1⟩) 2) = true := by
    decide +kernel
  have hopens : opensOnly ⟨0⟩ ⟨0⟩ (calling true [.int 1, .int 2] 10).1 = true := by decide +kernel
  obtain ⟨-, hopening⟩ := uninterrupted_of_undisturbed hquiet.1
  obtain ⟨-, hserved⟩ := uninterrupted_of_undisturbed hquiet.2.1
  obtain ⟨hkept, hflushed⟩ := uninterrupted_of_undisturbed hquiet.2.2
  have setting := setting_echoing 10
  have undiverted := undiverted_echoing 10
  have fresh : Fresh (fun _ => shared) (callingOn true [.int 1, .int 2]) := fresh_callingOn true _
  have runs : Runs (echoing 10) (callingOn true [.int 1, .int 2]) (calling true [.int 1, .int 2] 10).1
    (calling true [.int 1, .int 2] 10).2 := runs_calling
  obtain ⟨length, args, hserves⟩ := serves_of_enrolls henrolls
  obtain ⟨_, hcollected⟩ := collected_of_collects hcollects
  obtain ⟨descent, lineage, hcalls⟩ := (each_call_once setting undiverted fresh runs).keyed
  obtain ⟨enrolment, opener, frame, more, opening, window, -, openedFor, -, hlaunches⟩ :=
    hcalls ⟨1⟩ 2 ⟨0, 0, .str "k"⟩ length args hserves (hserved 2) rfl
  -- there is one call that opens a batch, and one flush that it launches
  obtain ⟨rfl, -⟩ := of_opensOnly hopens openedFor.enrolled openedFor.opened
  obtain ⟨flusher, place, hlaunched, hleft⟩ := hlaunches (hopening frame) fun _ => by decide +kernel
  obtain ⟨again, hcollector⟩ := setting.launched_of_opensOnly fresh runs undiverted.toUnintercepted lineage hopens hcollected
    openedFor.enrolled openedFor.opened
  obtain ⟨rfl, rfl⟩ := setting.launched_once undiverted.toUnintercepted fresh runs lineage ⟨_, _, rfl⟩ ⟨_, _, rfl⟩
    hlaunched hcollector
  have alone : LeftAlone (calling true [.int 1, .int 2] 10).1 (calling true [.int 1, .int 2] 10).2 ⟨2⟩ 1 :=
    ⟨hflushed 1, List.ne_nil_of_mem hcollected, setting.not_deferring_of_collect fresh runs hcollected hkept⟩
  obtain ⟨calls, position, returned, outcome, partOf, -, hcompleted, hshare⟩ := hleft alone
  exact ⟨args, enrolment, calls, position, returned, outcome, partOf, hcompleted, hshare⟩

/-- Whether an act invokes a function. -/
def invokes (function : Function) : Act → Bool
  | .performed (.call other _) => other = function
  | _ => false

/-- A call whose flush cannot be forked is part of no invocation, although it runs to its end: there is no scheduler. -/
theorem unflushed_without_scheduler :
    Undiverted (echoing 30) ∧
      Runs (echoing 30) (callingOn false [.int 1]) (calling false [.int 1] 30).1
        (calling false [.int 1] 30).2 ∧
      (∃ window args, Serves (calling false [.int 1] 30).1 ⟨0⟩ 2 0 window 0 shared
        (some (.str "k")) args) ∧
      (BatchKey.str "k").isTruthy = true ∧
      Uninterrupted (calling false [.int 1] 30).1 (calling false [.int 1] 30).2 ⟨0⟩ 2 ∧
      ∀ task number calls, ¬ Invokes (echoing 30) (calling false [.int 1] 30).1 task number shared calls := by
  have henrolls : enrolls ⟨0, 0, .str "k"⟩ (life (deeds (calling false [.int 1] 30).1 ⟨0⟩) 2) = true := by
    decide +kernel
  have hquiet : undisturbed (calling false [.int 1] 30) ⟨0⟩ = true := by decide +kernel
  have hnone : (calling false [.int 1] 30).1.any (fun entry => invokes shared entry.2) = false := by
    decide +kernel
  refine ⟨undiverted_echoing 30, runs_calling, serves_of_enrolls henrolls, rfl,
    (uninterrupted_of_undisturbed hquiet).2 2, ?_⟩
  rintro task number calls ⟨-, before, after, hdeeds, -⟩
  have hmem : (task, Act.performed (.call shared (calls.map Value.list))) ∈ (calling false [.int 1] 30).1 :=
    mem_deeds_iff.1 (by simp [hdeeds])
  have hinvokes := List.any_eq_false.1 hnone _ hmem
  simp [invokes] at hinvokes

end Batch
end EffectMachine
