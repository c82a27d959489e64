import EffectMachine.Proofs.Windows.Openings

/-!
# Batches with windows are closed by their flushes

When nothing interferes with batches, no batch is abandoned: a batch with a window is closed by the flush that was launched
for it, which has waited for the window to pass, and which calls the function right then.

* `Batch.Setting.launch_of_performed` says that a call which is enrolled launches the flush of its batch at most.
* `Batch.Timely.not_abandoned` says that no batch is abandoned, and `Batch.Timely.collected_of_removes` that a batch which
  is closed is collected by its own flush.
* `Batch.Timely.collected_at` says when a batch with a window is collected, and `Batch.Timely.invoked_at` when its flush
  calls the function.
-/

namespace EffectMachine

namespace Batch

variable {machine : Machine} {underlying : Nat → Function} {first : Host} {record before after mid later : Record}
variable {trace : Trace} {system : System} {descent : Descent} {task opener flusher : TaskId}
variable {number frame place window length start time : Nat} {group : BatchGroup} {function : Function}
variable {args : List Value} {opening : Enrolment} {calls : List Enrolled} {act : Act}

/-- The service of a call that is enrolled performs nothing but the launch of the flush. -/
theorem Setting.launch_of_performed (runs : Runs machine first trace system)
    (hserves : Serves trace opener frame group.batcher window group.definition function (some group.key) args)
    (henrolled : .acted (.enroll group args) opening ∈ life (deeds trace opener) frame) {effect : Effect}
    (hperformed : .performed effect ∈ life (deeds trace opener) frame) : effect = launch group function window := by
  obtain ⟨kind, tag, hpushed⟩ := hserves
  have hstride := mem_strides.2 ⟨hperformed, show (Act.performed effect).isStride = true from rfl⟩
  rcases joining_of_pushed runs hpushed with hplain |
    ⟨_, definition, _, key, _, begun, enrolment, rest, hoperation, -, hstrides, joining⟩
  · -- a service that takes no part in batches enrolls nothing
    have hnone : Action.isBatch (.enroll group args) = false :=
      hplain (fun _ => function) withheld _ (mem_strides.2 ⟨henrolled, rfl⟩)
    cases hnone
  · cases hoperation
    rw [hstrides] at hstride
    simp only [List.mem_cons, reduceCtorEq, false_or] at hstride
    obtain ⟨earlier, more, rfl⟩ := List.append_of_mem hstride
    exact (joining.before_launch rfl).2.1

/-- A flush with a window follows its course until it collects: it waits for its timer, if it has set one. -/
inductive Course (window : Nat) : List Act → Prop
  | unset (begun : Outcome) : Course window [.resumed begun, .acted (.arm window) none]
  | set (begun : Outcome) (timer : TimerId) (index : Fin [timer].length) :
      Course window [.resumed begun, .acted (.arm window) (some timer), .acted (.expired [timer]) index]

section Course

variable {acts earlier rest : List Act} {last : Progress}

/-- A computation that goes on to collect a batch is not cut short. -/
theorem not_cut (earlier : List Act) : ¬ Cut (earlier ++ .acted (.collect group) calls :: rest) := fun cut =>
  cut.not_mem (show Act.acted (.collect group) calls ≠ .givenUp by simp) (by simp)

/-- Whoever has its turn collects at once. -/
theorem collects_of_turn (follows : Follows (.running (flushNow group function)) acts last)
    (hacts : acts = earlier ++ .acted (.collect group) calls :: rest) (hprelude : ∀ act ∈ earlier, act.isPrelude = true) :
    earlier = [] := by
  subst hacts
  cases earlier with
  | nil => rfl
  | cons act earlier =>
      obtain ⟨reply, more, hmore, -⟩ := follows.of_act.resolve_left (not_cut _)
      cases (List.cons.inj hmore).1
      cases hprelude _ List.mem_cons_self

/-- A flush with a window that has collected has had its turn after its timer has run out. -/
theorem course_of_collect (hwindow : window ≠ 0) (follows : Follows (.fresh (flush group function window).body) acts last)
    (hacts : acts = earlier ++ .acted (.collect group) calls :: rest) :
    Course window earlier ∧ Follows (.running (flushNow group function)) (.acted (.collect group) calls :: rest) last := by
  have hprelude : ∀ act ∈ earlier, act.isPrelude = true := (flushing_of_follows follows).before_collect hacts
  have hbody : (flush group function window).body = .sleep window (flushNow group function) := by
    simp [flush, Computation.named, hwindow]
  rw [hbody] at follows
  subst hacts
  obtain ⟨begun, acts, hbegun, harming⟩ := follows.of_fresh.resolve_left (not_cut _)
  cases earlier with
  | nil => cases (List.cons.inj hbegun).1
  | cons act earlier =>
      obtain ⟨rfl, rfl⟩ := List.cons.inj hbegun
      obtain ⟨(reply : Option TimerId), acts, harmed, hwaiting⟩ := harming.of_act.resolve_left (not_cut _)
      cases earlier with
      | nil => cases (List.cons.inj harmed).1
      | cons act earlier =>
          obtain ⟨rfl, rfl⟩ := List.cons.inj harmed
          simp only [List.mem_cons] at hprelude
          cases reply with
          | none =>
              obtain rfl := collects_of_turn hwaiting rfl fun act hmem => hprelude act (.inr (.inr hmem))
              exact ⟨.unset begun, hwaiting⟩
          | some timer =>
              obtain ⟨index, acts, hnoticed, hturn⟩ := hwaiting.of_act.resolve_left (not_cut _)
              cases earlier with
              | nil => cases (List.cons.inj hnoticed).1
              | cons act earlier =>
                  obtain ⟨rfl, rfl⟩ := List.cons.inj hnoticed
                  simp only [List.mem_cons] at hprelude
                  obtain rfl := collects_of_turn hturn rfl fun act hmem => hprelude act (.inr (.inr (.inr hmem)))
                  exact ⟨.set begun timer index, hturn⟩

/-- A flush that has collected its batch calls the function at most once. -/
theorem performances_of_turn {effect : Effect}
    (follows : Follows (.running (flushNow group function)) (.acted (.collect group) calls :: rest) last)
    (hperformed : .performed effect ∈ rest) : performances rest = [invocation function calls] := by
  obtain ⟨_, _, hcollected, hflushing⟩ := follows.of_act.resolve_left (not_cut [])
  cases hcollected
  have hcut {acts : List Act} (cut : Cut acts) : .performed effect ∉ acts := cut.not_mem (by simp)
  obtain ⟨_, acts, rfl, hcalling⟩ := hflushing.of_act.resolve_left fun cut => hcut cut hperformed
  simp only [List.mem_cons, reduceCtorEq, false_or] at hperformed
  rcases hcalling.of_perform with cut | ⟨more, rfl, cut⟩ | ⟨answer, more, rfl, hreplying⟩
  · exact absurd hperformed (hcut cut)
  · have hnone : performances more = [] := performances_eq_nil fun _ => cut.not_mem (by simp)
    refine (performances_append [_, _] more).trans ?_
    rw [hnone]
    rfl
  · have hreplies := (follows_replying hreplying).1
    have hnone : performances more = [] := performances_eq_nil fun _ hmem => (hreplies _ hmem).elim
    refine (performances_append [_, _, _] more).trans ?_
    rw [hnone]
    rfl

/-- A flush with a window that has collected its batch at some place of a record has had its turn there. -/
theorem turn_of_collected (hwindow : window ≠ 0)
    (follows : Follows (.fresh (flush group function window).body) (strides (life (deeds (traceOf record) flusher) number))
      last)
    (hcollected : record = before ++ (time, flusher, .acted (.collect group) calls) :: after)
    (hactor : (Roll.after (deeds (traceOf before) flusher)).actor (.acted (.collect group) calls) = number) :
    ∃ rest, strides (life (deeds (traceOf record) flusher) number) =
        strides (life (deeds (traceOf before) flusher) number) ++ .acted (.collect group) calls :: rest ∧
      Course window (strides (life (deeds (traceOf before) flusher) number)) ∧
      Follows (.running (flushNow group function)) (.acted (.collect group) calls :: rest) last := by
  have hdeeds : deeds (traceOf record) flusher =
      deeds (traceOf before) flusher ++ .acted (.collect group) calls :: deeds (traceOf after) flusher := by
    rw [hcollected, traceOf_append, deeds_append]
    simp [deeds]
  obtain ⟨rest, hstrides⟩ := exists_strides_of_split hdeeds hactor rfl
  exact ⟨rest, hstrides, course_of_collect hwindow follows hstrides⟩

end Course

/-- A function is invoked at some time, by a frame that makes this one invocation. -/
structure InvokedAt (machine : Machine) (record : Record) (time : Nat) (task : TaskId) (number : Nat) (function : Function)
    (calls : List (List Value)) : Prop extends Invokes machine (traceOf record) task number function calls where
  called : (time, task, .performed (.call function (calls.map Value.list))) ∈ record
  begun : (time, task, .pushed (machine.invoke function (calls.map Value.list)) none) ∈ record

namespace Timely

variable (timely : Timely machine underlying first record system)
include timely

theorem recorded : Recorded (traceOf record) :=
  (timely.setting.books timely.fresh timely.runs).recorded

/-- Nobody abandons a batch, as every flush with a window can be forked. -/
theorem not_abandoned : (time, task, .acted (.abandon group) ()) ∉ record := by
  intro hmem
  have unintercepted := timely.undiverted.toUnintercepted
  obtain ⟨descent, lineage⟩ := timely.setting.lineage unintercepted timely.fresh timely.runs
  obtain ⟨before, after, htrace⟩ := List.append_of_mem (mem_traceOf.2 ⟨time, hmem⟩)
  obtain ⟨length, args, enrolment, begun, error, hlength, -, hstrides⟩ :=
    timely.setting.before_abandon timely.fresh timely.runs htrace rfl
  have hlaunch : launch group (underlying group.definition) length =
      .fork (.bare (flush group (underlying group.definition) length)) := if_neg hlength
  have hperformed : .performed (.fork (.bare (flush group (underlying group.definition) length))) ∈
      life (deeds (traceOf record) task) ((Roll.after (deeds before task)).actor (.acted (.abandon group) ())) := by
    rw [htrace, deeds_append]
    refine mem_life_append _ (mem_strides.1 ?_).1
    rw [hstrides, hlaunch]
    simp
  obtain ⟨forked, hlaunched⟩ := Setting.launched_of_performed unintercepted lineage timely.undiverted.forks
    timely.parked_scheduled (timely.calm_deeds task) hperformed
  exact timely.setting.not_launched_of_abandon unintercepted timely.fresh timely.runs htrace rfl ⟨group, length, rfl⟩ hlaunched

/-- A batch that is closed is collected, with all its calls, by the flush that was launched for it. -/
theorem collected_of_removes (lineage : Lineage machine underlying first descent (traceOf record) system.parked)
    (opens : Opens underlying record before (mid ++ (time, task, act) :: later) start opener frame window group args opening)
    (hkept : ∀ entry ∈ mid, entry.2.2.removes group = false) (hremoves : act.removes group = true) :
    ∃ calls length, act = .acted (.collect group) calls ∧
      calls = ⟨args, opening.slot⟩ :: (traceOf mid).flatMap (fun entry => entry.2.joins group) ∧
      LaunchedBy descent (traceOf record) opener frame (flush group (underlying group.definition) length) task
        ((Roll.after (deeds (traceOf (before ++ (start, opener, .acted (.enroll group args) opening) :: mid)) task)).actor act) := by
  have recorded := timely.recorded
  have hopening : traceOf record = traceOf before ++ (opener, .acted (.enroll group args) opening) ::
      traceOf (mid ++ (time, task, act) :: later) := by simp [opens.enrolled]
  have htrace : traceOf record = traceOf (before ++ (start, opener, .acted (.enroll group args) opening) :: mid) ++
      (task, act) :: traceOf later := by simp [opens.enrolled]
  unfold Act.removes at hremoves
  split at hremoves
  · rename_i other calls
    obtain rfl : other = group := of_decide_eq_true hremoves
    have hcalls : calls = ⟨args, opening.slot⟩ :: (traceOf mid).flatMap fun entry => entry.2.joins other := by
      have hempty : booked other (traceOf before) = [] := (recorded _ _ _ _ hopening).2.1 opens.opened
      have hown : (Act.acted (.enroll other args) opening).joins other = [⟨args, opening.slot⟩] := if_pos rfl
      rw [show calls = booked other _ from recorded _ _ _ _ htrace, traceOf_append, booked_append, hempty]
      · rw [traceOf_cons, List.flatMap_cons, hown]
        rfl
      · intro entry hentry
        rw [traceOf_cons, List.mem_cons] at hentry
        rcases hentry with rfl | hentry
        · rfl
        · obtain ⟨stamp, hmem⟩ := mem_traceOf.1 hentry
          exact hkept _ hmem
    obtain ⟨caller, number, more, enrolment, rest, length, henrolled, -, hfirst, hlaunched⟩ :=
      timely.setting.opening_of_collect timely.fresh timely.runs timely.undiverted.toUnintercepted lineage
        (mem_life_of_split htrace rfl)
    obtain ⟨others, behind, hagain, hactor⟩ := exists_of_life henrolled
    have hslot : opening.slot = enrolment.slot := by
      rw [hcalls] at hfirst
      exact (Enrolled.mk.inj (List.cons.inj hfirst).1).2
    obtain ⟨rfl, hentry⟩ := recorded.enrolled_once hopening hagain hslot
    cases hentry
    obtain rfl := opens.actor.symm.trans hactor
    exact ⟨calls, length, rfl, hcalls, hlaunched⟩
  · rename_i other reply
    obtain rfl : other = group := of_decide_eq_true hremoves
    obtain rfl : reply = () := rfl
    have habandoned : (time, task, .acted (.abandon other) ()) ∈ record := by simp [opens.enrolled]
    exact absurd habandoned timely.not_abandoned
  · cases hremoves

omit timely in
/-- The flush of a batch with a window runs in a task of its own. -/
theorem launched_apart (runs : Runs machine first trace system)
    (hserves : Serves trace opener frame group.batcher window group.definition (underlying group.definition) (some group.key)
      args)
    (henrolled : .acted (.enroll group args) opening ∈ life (deeds trace opener) frame) (hwindow : window ≠ 0)
    (hlaunched : LaunchedBy descent trace opener frame (flush group (underlying group.definition) length) flusher place) :
    place = 1 ∧ LaunchedBy descent trace opener frame (flush group (underlying group.definition) window) flusher 1 := by
  have hlaunch : launch group (underlying group.definition) window =
      .fork (.bare (flush group (underlying group.definition) window)) := if_neg hwindow
  cases hlaunched with
  | here hdeeds hactor =>
      obtain ⟨more, hlife⟩ := exists_life_of_split hdeeds hactor
      have hperformed : .performed (.bare (flush group (underlying group.definition) length)) ∈
          life (deeds trace opener) frame := by simp [hlife]
      have heffect := Setting.launch_of_performed runs hserves henrolled hperformed
      cases heffect.trans hlaunch
  | @apart before after seen _ htrace hdeeds hactor hbirth =>
      have hsplit : deeds trace opener = seen ++
          .performed (.fork (.bare (flush group (underlying group.definition) length))) ::
            .forked (.bare (flush group (underlying group.definition) length)) :: deeds after opener := by
        rw [htrace, deeds_append, hdeeds]
        simp [deeds]
      obtain ⟨more, hlife⟩ := exists_life_of_split hsplit hactor
      have hperformed : .performed (.fork (.bare (flush group (underlying group.definition) length))) ∈
          life (deeds trace opener) frame := by simp [hlife]
      have heffect := Setting.launch_of_performed runs hserves henrolled hperformed
      have hflush := Effect.bare.inj (Effect.fork.inj (heffect.trans hlaunch))
      exact ⟨rfl, hflush ▸ .apart htrace hdeeds hactor hbirth⟩

/-- A flush with a window that has collected its batch was put on its stack, and has waited for its timer to run out. -/
theorem set_of_collect (hwindow : window ≠ 0) {tag : Option HandlerTag}
    (hpushed : .pushed (flush group function window) tag ∈ life (deeds (traceOf record) flusher) number)
    (hcollected : record = before ++ (time, flusher, .acted (.collect group) calls) :: after)
    (hactor : (Roll.after (deeds (traceOf before) flusher)).actor (.acted (.collect group) calls) = number) :
    ∃ timer others set rest, record = others ++ (set, flusher, .acted (.arm window) (some timer)) :: rest ∧
      (Roll.after (deeds (traceOf others) flusher)).actor (.acted (.arm window) (some timer)) = number ∧
      set + window ≤ time := by
  obtain ⟨last, follows⟩ := follows_of_pushed timely.runs hpushed
  obtain ⟨-, -, hcourse, -⟩ := turn_of_collected hwindow follows hcollected hactor
  generalize hearlier : strides (life (deeds (traceOf before) flusher) number) = earlier at hcourse
  cases hcourse with
  | unset begun =>
      -- a scheduler sets every timer
      have hsplit : strides (life (deeds (traceOf before) flusher) number) =
        [.resumed begun] ++ .acted (.arm window) none :: [] := hearlier
      obtain ⟨others, set, more, hset, -⟩ := exists_of_stride hsplit
      have hunset : (set, flusher, .acted (.arm window) none) ∈ record := by simp [hcollected, hset]
      exact absurd (timely.clocked.rings timely.new timely.scheduled hunset) hwindow
  | set begun timer index =>
      have hsplit : strides (life (deeds (traceOf before) flusher) number) =
        [.resumed begun, .acted (.arm window) (some timer)] ++ .acted (.expired [timer]) index :: [] := hearlier
      obtain ⟨others, noticed, behind, hnoticed, -, harmed⟩ := exists_of_stride hsplit
      obtain ⟨seen, set, mid, hset, hsetter, -⟩ :=
        exists_of_stride (show strides (life (deeds (traceOf others) flusher) number) =
          [.resumed begun] ++ .acted (.arm window) (some timer) :: [] from harmed)
      have hrecord : record = others ++ (noticed, flusher, .acted (.expired [timer]) index) ::
          (behind ++ (time, flusher, .acted (.collect group) calls) :: after) := by
        rw [hcollected, hnoticed]
        simp
      have hpassed := timely.timed.noticed others noticed flusher [timer] index _ hrecord set flusher window
        (by simp [hset])
      have hlater := timely.clocked.le_of_mem_after hrecord (List.mem_append_right behind List.mem_cons_self)
      rw [hset, List.append_assoc, List.cons_append] at hrecord
      exact ⟨timer, seen, set, _, hrecord, hsetter, Nat.le_trans hpassed hlater⟩

/-- A batch with a window is collected, with all its calls, by the flush that was launched for it, when the window has
passed. -/
theorem collected_at (hwindow : window ≠ 0)
    (opens : Opens underlying record before (mid ++ (time, task, act) :: later) start opener frame window group args opening)
    (hkept : ∀ entry ∈ mid, entry.2.2.removes group = false) (hremoves : act.removes group = true) :
    ∃ calls, act = .acted (.collect group) calls ∧
      calls = ⟨args, opening.slot⟩ :: (traceOf mid).flatMap (fun entry => entry.2.joins group) ∧
      (Roll.after (deeds (traceOf (before ++ (start, opener, .acted (.enroll group args) opening) :: mid)) task)).actor act = 1 ∧
      .pushed (flush group (underlying group.definition) window) none ∈ life (deeds (traceOf record) task) 1 ∧
      time = start + window := by
  have unintercepted := timely.undiverted.toUnintercepted
  obtain ⟨descent, lineage⟩ := timely.setting.lineage unintercepted timely.fresh timely.runs
  obtain ⟨calls, length, rfl, hcalls, hlaunched⟩ := timely.collected_of_removes lineage opens hkept hremoves
  have hopening : traceOf record = traceOf before ++ (opener, .acted (.enroll group args) opening) ::
      traceOf (mid ++ (time, task, .acted (.collect group) calls) :: later) := by simp [opens.enrolled]
  have hrecord : record = (before ++ (start, opener, .acted (.enroll group args) opening) :: mid) ++
      (time, task, .acted (.collect group) calls) :: later := by simp [opens.enrolled]
  have htrace : traceOf record = traceOf (before ++ (start, opener, .acted (.enroll group args) opening) :: mid) ++
      (task, .acted (.collect group) calls) :: traceOf later := by simp [hrecord]
  obtain ⟨hplace, hlaunched⟩ :=
    launched_apart timely.runs opens.serves (mem_life_of_split hopening opens.actor) hwindow hlaunched
  have hcollected := mem_life_of_split htrace hplace
  have hpushed := Setting.pushed_of_launch unintercepted lineage hlaunched (List.ne_nil_of_mem hcollected)
  obtain ⟨timer, others, set, rest, hset, hsetter, hpassed⟩ := timely.set_of_collect hwindow hpushed hrecord hplace
  obtain ⟨between, -, hafter⟩ := timely.after_opening lineage hlaunched opens.enrolled opens.actor hset hsetter
  have hstart := timely.clocked.le_of_mem_after opens.enrolled (hafter ▸ List.mem_append_right between List.mem_cons_self)
  obtain ⟨middle, clocked, hnow⟩ := timely.clocked.exists_acted hrecord
  have hopen := (timely.earlier hrecord clocked).now_le hwindow (timely.opens_earlier opens) hkept
  exact ⟨calls, rfl, hcalls, hplace, hpushed, by omega⟩

/-- What a flush with a window does once it has collected, in a record that has not come to a later time, it does at the
time at which it has collected. -/
theorem time_of_flusher (hcollected : record = before ++ (time, flusher, .acted (.collect group) calls) :: after)
    (hactor : (Roll.after (deeds (traceOf before) flusher)).actor (.acted (.collect group) calls) = number)
    (hnow : system.host.timers.now = time) {earlier rest : Record} {stamp : Nat} {effect : Effect}
    (hrecord : record = earlier ++ (stamp, flusher, act) :: rest)
    (hperformed : .performed effect ∈ life (deeds (traceOf (earlier ++ [(stamp, flusher, act)])) flusher) number) :
    stamp = time := by
  have hle := timely.clocked.le_now (hrecord ▸ List.mem_append_right earlier List.mem_cons_self)
  rcases order_of_splits (hcollected.symm.trans hrecord) with ⟨-, hentry, -⟩ | ⟨mid, -, hafter⟩ | ⟨mid, hbefore, -⟩
  · exact (Prod.mk.inj hentry).1.symm
  · have hge := timely.clocked.le_of_mem_after hcollected (hafter ▸ List.mem_append_right mid List.mem_cons_self)
    omega
  · -- a flush performs nothing before it collects
    have hprelude := timely.setting.before_collect timely.fresh timely.runs
      (show traceOf record = traceOf before ++ (flusher, .acted (.collect group) calls) :: traceOf after by
        simp [hcollected]) hactor
    have hmem : .performed effect ∈ life (deeds (traceOf before) flusher) number := by
      rw [hbefore, List.append_cons, traceOf_append, deeds_append]
      exact mem_life_append _ hperformed
    cases hprelude _ (mem_strides.2 ⟨hmem, rfl⟩)

/-- A flush with a window that has collected its batch performs the call of the function for the calls of the batch, and
nothing else. -/
theorem performances_of_flusher (hwindow : window ≠ 0) {tag : Option HandlerTag}
    (hpushed : .pushed (flush group function window) tag ∈ life (deeds (traceOf record) flusher) number)
    (hcollected : record = before ++ (time, flusher, .acted (.collect group) calls) :: after)
    (hactor : (Roll.after (deeds (traceOf before) flusher)).actor (.acted (.collect group) calls) = number) {effect : Effect}
    (hperformed : .performed effect ∈ life (deeds (traceOf record) flusher) number) :
    performances (life (deeds (traceOf record) flusher) number) = [invocation function calls] := by
  obtain ⟨last, follows⟩ := follows_of_pushed timely.runs hpushed
  obtain ⟨rest, hstrides, -, hturn⟩ := turn_of_collected hwindow follows hcollected hactor
  have hprelude := (flushing_of_follows follows).before_collect hstrides
  have hmem := mem_strides.2 ⟨hperformed, show (Act.performed effect).isStride = true from rfl⟩
  rw [hstrides] at hmem
  rcases List.mem_append.1 hmem with hearly | hlate
  · cases hprelude _ hearly
  · simp only [List.mem_cons, reduceCtorEq, false_or] at hlate
    rw [← performances_strides, hstrides, performances_append, performances_of_isPrelude hprelude]
    change performances rest = [invocation function calls]
    exact performances_of_turn hturn hlate

/-- A flush with a window that has collected its batch has called the function when nobody can run. -/
theorem calls_of_resting (resting : system.Resting) (hwindow : window ≠ 0) {tag : Option HandlerTag}
    (hpushed : .pushed (flush group function window) tag ∈ life (deeds (traceOf record) flusher) number)
    (hcollected : record = before ++ (time, flusher, .acted (.collect group) calls) :: after)
    (hactor : (Roll.after (deeds (traceOf before) flusher)).actor (.acted (.collect group) calls) = number) :
    .performed (invocation function calls) ∈ life (deeds (traceOf record) flusher) number := by
  obtain ⟨last, follows, hdozes⟩ := timely.dozes resting hpushed
  have hgoing : .givenUp ∉ strides (life (deeds (traceOf record) flusher) number) := fun hmem =>
    timely.not_mem_givenUp flusher number (mem_strides.1 hmem).1
  obtain ⟨more, hstrides, -, hturn⟩ := turn_of_collected hwindow follows hcollected hactor
  rw [hstrides] at hgoing
  simp only [List.mem_append, List.mem_cons, reduceCtorEq, false_or, not_or] at hgoing
  suffices hmore : .performed (invocation function calls) ∈ more by
    refine (mem_strides.1 ?_).1
    rw [hstrides]
    exact List.mem_append_right _ (List.mem_cons_of_mem _ hmore)
  obtain ⟨_, _, hcollected, hflushing⟩ := hturn.of_act.resolve_left (not_cut [])
  cases hcollected
  rcases hflushing.acted_of_dozes hdozes hgoing.2 with ⟨-, hawaits, -⟩ | ⟨_, acts, rfl, hcalling⟩
  · cases hawaits
  · simp only [List.mem_cons, reduceCtorEq, false_or] at hgoing
    obtain ⟨acts, rfl⟩ := hcalling.performed_of_dozes hdozes hgoing.2
    simp [invocation]

/-- When nobody can run any more at the time at which a flush with a window has collected its batch, it has invoked the
function. -/
theorem invoked_of_resting (resting : system.Resting) (hwindow : window ≠ 0) {tag : Option HandlerTag}
    (hpushed : .pushed (flush group function window) tag ∈ life (deeds (traceOf record) flusher) number)
    (hcollected : record = before ++ (time, flusher, .acted (.collect group) calls) :: after)
    (hactor : (Roll.after (deeds (traceOf before) flusher)).actor (.acted (.collect group) calls) = number)
    (hnow : system.host.timers.now = time) :
    InvokedAt machine record time flusher number function (calls.map Enrolled.args) := by
  have hperformed := timely.calls_of_resting resting hwindow hpushed hcollected hactor
  have hinvokes := timely.runs.invokes timely.undiverted (timely.calm_deeds flusher)
    (timely.performances_of_flusher hwindow hpushed hcollected hactor hperformed)
  obtain ⟨own, behind, hdeeds, hcaller⟩ := hinvokes.run
  -- from when the flush performs the call on, it is as late as it was when the flush collected
  have hthen {act : Act} {own more : List Act} (hdeeds : deeds (traceOf record) flusher = own ++ act :: more)
      (hmem : .performed (invocation function calls) ∈ life (own ++ [act]) number) : (time, flusher, act) ∈ record := by
    obtain ⟨others, _, hothers, rfl, -⟩ := exists_of_deeds hdeeds
    obtain ⟨older, stamp, newer, holder, rfl, -⟩ := exists_stamp hothers
    obtain rfl := timely.time_of_flusher hcollected hactor hnow holder (by
      rw [traceOf_append, deeds_append]
      simpa [deeds] using hmem)
    simp [holder]
  have hcalled : .performed (invocation function calls) ∈ life (own ++ [.performed (invocation function calls)]) number := by
    rw [life_concat, invocation, if_pos hcaller]
    simp
  refine ⟨hinvokes, hthen hdeeds hcalled, ?_⟩
  rw [List.append_cons] at hdeeds
  exact hthen hdeeds (mem_life_append _ hcalled)

/-- A flush with a window that has collected its batch has invoked the function before time passes, and before the system
comes to its end. -/
theorem invoked_at (hwindow : window ≠ 0)
    (hpushed : .pushed (flush group function window) none ∈ life (deeds (traceOf record) flusher) number)
    (hcollected : record = before ++ (time, flusher, .acted (.collect group) calls) :: after)
    (hactor : (Roll.after (deeds (traceOf before) flusher)).actor (.acted (.collect group) calls) = number) :
    (system.host.timers.now = time ∧ system.step machine ≠ none) ∨
      InvokedAt machine record time flusher number function (calls.map Enrolled.args) := by
  have hmem : (time, flusher, .acted (.collect group) calls) ∈ record := by simp [hcollected]
  rcases Nat.lt_or_eq_of_le (timely.clocked.le_now hmem) with hpassed | hnow
  · -- nobody could run once when the flush had collected
    obtain ⟨seen, rest, resting, hsplit, clocked, hrest, hnow, hlater⟩ := timely.clocked.exists_rest hmem hpassed
    rcases split_of_append (hsplit.symm.trans hcollected) with ⟨mid, hseen, -⟩ | ⟨mid, -, hrest⟩
    · have htrace : traceOf seen = traceOf before ++ (flusher, .acted (.collect group) calls) :: traceOf mid := by
        simp [hseen]
      have hdeeds : deeds (traceOf record) flusher = deeds (traceOf seen) flusher ++ deeds (traceOf rest) flusher := by
        rw [hsplit, traceOf_append, deeds_append]
      have earlier := timely.earlier hsplit clocked
      have hpushed_seen := timely.runs.pushed_of_prefix hpushed _ hdeeds (List.ne_nil_of_mem (mem_life_of_split htrace hactor))
      have hinvoked := earlier.invoked_of_resting hrest hwindow hpushed_seen hseen hactor hnow
      have hperformed : .performed (invocation function calls) ∈ life (deeds (traceOf record) flusher) number :=
        hdeeds ▸ mem_life_append _ (earlier.calls_of_resting hrest hwindow hpushed_seen hseen hactor)
      exact .inr ⟨timely.runs.invokes timely.undiverted (timely.calm_deeds flusher)
        (timely.performances_of_flusher hwindow hpushed hcollected hactor hperformed),
        hsplit ▸ List.mem_append_left rest hinvoked.called, hsplit ▸ List.mem_append_left rest hinvoked.begun⟩
    · exact absurd (hlater _ (hrest ▸ List.mem_append_right mid List.mem_cons_self)) (Nat.lt_irrefl _)
  · by_cases hstep : system.step machine = none
    · exact .inr (timely.invoked_of_resting (System.resting_of_step hstep).1 hwindow hpushed hcollected hactor hnow.symm)
    · exact .inl ⟨hnow.symm, hstep⟩

end Timely
end Batch
end EffectMachine
