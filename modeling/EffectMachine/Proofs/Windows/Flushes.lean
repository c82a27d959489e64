import EffectMachine.Proofs.Batch.Routing
import EffectMachine.Proofs.Windows.Timekeeping

/-!
# Flushes wait for their timers

When nobody can run, a flush with a window that has not collected its batch has set one timer and waits for it, and the
service of a call that has opened a batch has launched such a flush.  So while a batch is open a timer stands for it.

* `Host.Dozes` says where a computation stands when nobody can run, and `System.Resting.dozes` that each stands so.
* `Batch.Timely` collects what is known of a record in which nothing interferes with batches.
* `Batch.Timely.armed_of_pushed` says that a flush which has not collected waits for its timer when nobody can run.
* `Batch.Opens` and `Batch.SetOff` say that a call opens a batch and that a flush has set its timer, and
  `Batch.Timely.exists_setOff` that every batch which was opened has such a flush when nobody can run.
-/

namespace EffectMachine

/-- Where a computation stands when nobody can run: it has ended or waits for the outcome of an effect, or it waits for
something, and if it waits for timers then none of them has run out. -/
inductive Host.Dozes (host : Host) (task : TaskId) : Progress → Prop
  | waits {progress : Progress} (hwaits : progress.Waits) : Dozes host task progress
  | blocked {action : Action} {resume : action.Reply → Body} (hawaits : host.Awaits task action)
      (hsilent : ∀ timers, action = .expired timers → ∀ timer ∈ timers, timer ∉ host.timers.expired) :
      Dozes host task (.running (.act action resume))

/-- When nobody can run every computation has dozed off. -/
theorem System.Resting.dozes {machine : Machine} {first : Host} {trace : Trace} {system : System} {task : TaskId}
    {number : Nat} {computation : Computation} {tag : Option HandlerTag} (resting : system.Resting)
    (punctual : system.Punctual) (attended : system.Attended) (runs : Runs machine first trace system)
    (hpushed : .pushed computation tag ∈ life (deeds trace task) number) :
    ∃ last, Follows (.fresh computation.body) (strides (life (deeds trace task) number)) last ∧
      system.host.Dozes task last := by
  obtain ⟨later, last, hlife, hplays, hplace⟩ := runs.on_top_or_waits hpushed
  refine ⟨last, ?_, ?_⟩
  · rw [hlife]
    exact hplays.follows
  · rcases hplace with ⟨-, stack, hdriven, rfl⟩ | ⟨-, hwaits⟩
    · obtain ⟨-, ⟨action, resume, hrunning, hawaits⟩, hsilent⟩ := resting.blocked punctual attended hdriven
      rw [hrunning]
      refine .blocked hawaits fun timers haction timer hmem => hsilent timer ?_
      subst haction
      rw [Frame.awaited, hrunning]
      exact hmem
    · exact .waits hwaits

namespace Follows

variable {host : Host} {task : TaskId} {acts : List Act} {last : Progress}

/-- A computation that has dozed off has begun. -/
theorem begun_of_dozes {body : Body} (follows : Follows (.fresh body) acts last) (hdozes : host.Dozes task last)
    (hgoing : .givenUp ∉ acts) : ∃ begun rest, acts = .resumed begun :: rest ∧ Follows (.running body) rest last := by
  cases follows with
  | done =>
      cases hdozes with
      | waits hwaits => exact hwaits.elim
  | begin rest => exact ⟨_, _, rfl, rest⟩
  | giveUp => exact absurd List.mem_cons_self hgoing

/-- A computation that has dozed off waits for the reply to what it does by itself, or has got it. -/
theorem acted_of_dozes {action : Action} {resume : action.Reply → Body}
    (follows : Follows (.running (.act action resume)) acts last) (hdozes : host.Dozes task last) (hgoing : .givenUp ∉ acts) :
    (acts = [] ∧ host.Awaits task action ∧
        ∀ timers, action = .expired timers → ∀ timer ∈ timers, timer ∉ host.timers.expired) ∨
      ∃ reply rest, acts = .acted action reply :: rest ∧ Follows (.running (resume reply)) rest last := by
  cases follows with
  | done =>
      cases hdozes with
      | waits hwaits => exact hwaits.elim
      | blocked hawaits hsilent => exact .inl ⟨rfl, hawaits, hsilent⟩
  | act rest => exact .inr ⟨_, _, rfl, rest⟩
  | giveUp => exact absurd List.mem_cons_self hgoing

/-- A computation that has dozed off has performed an effect that it was about to perform. -/
theorem performed_of_dozes {effect : Effect} {resume : Outcome → Body}
    (follows : Follows (.running (.perform effect resume)) acts last) (hdozes : host.Dozes task last)
    (hgoing : .givenUp ∉ acts) : ∃ rest, acts = .performed effect :: rest := by
  cases follows with
  | done =>
      cases hdozes with
      | waits hwaits => exact hwaits.elim
  | perform rest => exact ⟨_, rfl⟩
  | giveUp => exact absurd List.mem_cons_self hgoing

end Follows

/-! ## Flushes when nobody can run -/

namespace Batch

/-- What is known of the record of a system with batches in which nothing interferes with these: no plugin has a say in
calls, in the running of computations and in forks, there is a scheduler, and nobody takes note of a cancellation. -/
structure Timely (machine : Machine) (underlying : Nat → Function) (first : Host) (record : Record) (system : System) :
    Prop where
  setting : Setting machine underlying
  undiverted : Undiverted machine
  fresh : Fresh underlying first
  orderly : first.timers.Orderly
  scheduled : first.scheduled = true
  clocked : Clocked machine first record system
  calm : ∀ time task, (time, task, .noticed) ∉ record

namespace Timely

variable {machine : Machine} {underlying : Nat → Function} {first : Host} {record before after : Record}
variable {system middle : System} {task opener flusher : TaskId} {number frame window : Nat} {group : BatchGroup}
variable {function : Function} {tag : Option HandlerTag} {args : List Value} {opening : Enrolment}

/-- What is known of a record is known of what was recorded until some time. -/
theorem earlier (timely : Timely machine underlying first record system) (hrecord : record = before ++ after)
    (clocked : Clocked machine first before middle) : Timely machine underlying first before middle where
  setting := timely.setting
  undiverted := timely.undiverted
  fresh := timely.fresh
  orderly := timely.orderly
  scheduled := timely.scheduled
  clocked := clocked
  calm := fun time task hmem => timely.calm time task (hrecord ▸ List.mem_append_left after hmem)

variable (timely : Timely machine underlying first record system)
include timely

theorem new : ∀ process ∈ first.processes, process.activity.stack? = none := by
  intro process hmem
  obtain ⟨errand, hactivity, -⟩ := timely.fresh.clients process hmem
  rw [hactivity]
  rfl

theorem runs : Runs machine first (traceOf record) system :=
  timely.clocked.runs timely.new

theorem timed : Timed record system.host.timers :=
  timely.clocked.timed timely.orderly

theorem punctual : system.Punctual :=
  timely.clocked.punctual fun process hmem => (timely.fresh.clients process hmem).imp fun _ herrand => herrand.1

theorem calm_deeds (task : TaskId) : .noticed ∉ deeds (traceOf record) task := by
  intro hmem
  obtain ⟨time, htime⟩ := mem_traceOf.1 (mem_deeds_iff.1 hmem)
  exact timely.calm time task htime

theorem not_mem_givenUp (task : TaskId) (number : Nat) : .givenUp ∉ life (deeds (traceOf record) task) number :=
  timely.runs.not_mem_givenUp (timely.calm_deeds task) number

theorem dozes (resting : system.Resting) {computation : Computation}
    (hpushed : .pushed computation tag ∈ life (deeds (traceOf record) task) number) :
    ∃ last, Follows (.fresh computation.body) (strides (life (deeds (traceOf record) task) number)) last ∧
      system.host.Dozes task last :=
  resting.dozes timely.punctual (timely.clocked.attended timely.new) timely.runs hpushed

/-- A flush that has not collected its batch has set one timer when nobody can run, and waits for it. -/
theorem armed_of_pushed (resting : system.Resting) (hwindow : window ≠ 0)
    (hpushed : .pushed (flush group function window) tag ∈ life (deeds (traceOf record) task) number)
    (hwaiting : ∀ calls, .acted (.collect group) calls ∉ life (deeds (traceOf record) task) number) :
    ∃ begun timer, strides (life (deeds (traceOf record) task) number) =
      [.resumed begun, .acted (.arm window) (some timer)] ∧ timer ∉ system.host.timers.expired := by
  obtain ⟨last, follows, hdozes⟩ := timely.dozes resting hpushed
  have hbody : (flush group function window).body = .sleep window (flushNow group function) := by
    simp [flush, Computation.named, hwindow]
  rw [hbody] at follows
  have hgoing : .givenUp ∉ strides (life (deeds (traceOf record) task) number) := fun hmem =>
    timely.not_mem_givenUp task number (mem_strides.1 hmem).1
  have huncollected (calls : List Enrolled) :
      .acted (.collect group) calls ∉ strides (life (deeds (traceOf record) task) number) := fun hmem =>
    hwaiting calls (mem_strides.1 hmem).1
  generalize strides (life (deeds (traceOf record) task) number) = acts at follows hgoing huncollected ⊢
  -- a flush that has its turn collects at once
  have hturn {acts : List Act} (hturn : Follows (.running (flushNow group function)) acts last)
      (hgoing : .givenUp ∉ acts) (huncollected : ∀ calls : List Enrolled, .acted (.collect group) calls ∉ acts) : False := by
    rcases hturn.acted_of_dozes hdozes hgoing with ⟨-, hawaits, -⟩ | ⟨(calls : List Enrolled), rest, rfl, -⟩
    · cases hawaits
    · exact huncollected calls List.mem_cons_self
  obtain ⟨begun, acts, rfl, harming⟩ := follows.begun_of_dozes hdozes hgoing
  simp only [List.mem_cons, reduceCtorEq, false_or] at hgoing huncollected
  rcases harming.acted_of_dozes hdozes hgoing with ⟨-, hawaits, -⟩ | ⟨(reply : Option TimerId), acts, rfl, harmed⟩
  · cases hawaits
  simp only [List.mem_cons, reduceCtorEq, false_or] at hgoing huncollected
  cases reply with
  | none => exact (hturn harmed hgoing fun calls hmem => huncollected calls (.inr hmem)).elim
  | some timer =>
      rcases harmed.acted_of_dozes hdozes hgoing with ⟨rfl, -, hsilent⟩ | ⟨reply, acts, rfl, hnoticed⟩
      · exact ⟨begun, timer, rfl, hsilent [timer] rfl timer List.mem_cons_self⟩
      · simp only [List.mem_cons, reduceCtorEq, false_or] at hgoing huncollected
        exact (hturn hnoticed hgoing fun calls hmem => huncollected calls (.inr (.inr hmem))).elim

/-- A call that has opened a batch with a window has launched its flush when nobody can run. -/
theorem performed_launch (resting : system.Resting) (hwindow : window ≠ 0) (htruthy : group.key.isTruthy = true)
    {kind : String} {begun : Outcome} {rest : List Act} (hopened : opening.opened = true)
    (hpushed : .pushed (handle group.batcher window (.custom kind (.batchCall group.definition function (some group.key) args)))
      tag ∈ life (deeds (traceOf record) opener) frame)
    (hstrides : strides (life (deeds (traceOf record) opener) frame) =
      .resumed begun :: .acted (.enroll group args) opening :: rest) :
    .performed (.fork (.bare (flush group function window))) ∈ life (deeds (traceOf record) opener) frame := by
  obtain ⟨last, follows, hdozes⟩ := timely.dozes resting hpushed
  have hgoing : .givenUp ∉ strides (life (deeds (traceOf record) opener) frame) := fun hmem =>
    timely.not_mem_givenUp opener frame (mem_strides.1 hmem).1
  suffices hlaunch : .performed (.fork (.bare (flush group function window))) ∈
      strides (life (deeds (traceOf record) opener) frame) from (mem_strides.1 hlaunch).1
  rw [body_handle_of_isTruthy htruthy, hstrides] at follows
  rw [hstrides] at hgoing ⊢
  simp only [List.mem_cons, reduceCtorEq, false_or] at hgoing ⊢
  cases follows with
  | begin follows =>
      cases follows with
      | act follows =>
          simp only [hopened, if_true, if_neg hwindow] at follows
          rcases follows.acted_of_dozes hdozes hgoing with ⟨-, hawaits, -⟩ | ⟨reply, rest, rfl, hreported⟩
          · cases hawaits
          · simp only [List.mem_cons, reduceCtorEq, false_or] at hgoing ⊢
            obtain ⟨rest, rfl⟩ := hreported.performed_of_dozes hdozes hgoing
            exact List.mem_cons_self

theorem parked_scheduled : system.parked.scheduled = true := by
  have hkept : system.host.scheduled = true := timely.runs.later.scheduled.trans timely.scheduled
  unfold System.parked
  split <;> exact hkept

variable {descent : Descent} {start : Nat}
variable (lineage : Lineage machine underlying first descent (traceOf record) system.parked)
include lineage

omit timely in
/-- A flush that was launched was put on its stack when nobody can run. -/
theorem pushed_of_launched (timely : Timely machine underlying first record system) (resting : system.Resting)
    (hlaunched : LaunchedBy descent (traceOf record) opener frame (flush group (underlying group.definition) window) flusher 1) :
    .pushed (flush group (underlying group.definition) window) none ∈ life (deeds (traceOf record) flusher) 1 := by
  refine (Setting.pushed_or_waiting timely.undiverted.toUnintercepted lineage hlaunched).resolve_right ?_
  rintro ⟨-, context, effect, hwaiting⟩
  have hactivity : system.activity? flusher = some (.forked context effect) :=
    (System.activity?_eq_getElem? system flusher).trans hwaiting
  exact (resting.sleeps timely.punctual hactivity).begun context effect rfl

/-- Whatever a flush does by itself comes after the opening of the batch that it was launched for. -/
theorem after_opening {number : Nat}
    (hlaunched : LaunchedBy descent (traceOf record) opener frame (flush group (underlying group.definition) window) flusher
      number)
    (hrecord : record = before ++ (start, opener, .acted (.enroll group args) opening) :: after)
    (hframe : (Roll.after (deeds (traceOf before) opener)).actor (.acted (.enroll group args) opening) = frame)
    {earlier later : Record} {time : Nat} {action : Action} {reply : action.Reply}
    (hacted : record = earlier ++ (time, flusher, .acted action reply) :: later)
    (hactor : (Roll.after (deeds (traceOf earlier) flusher)).actor (.acted action reply) = number) :
    ∃ mid, earlier = before ++ (start, opener, .acted (.enroll group args) opening) :: mid ∧
      after = mid ++ (time, flusher, .acted action reply) :: later := by
  have htrace : traceOf record = traceOf before ++ (opener, .acted (.enroll group args) opening) :: traceOf after := by
    simp [hrecord]
  have hsplit : traceOf record = traceOf earlier ++ (flusher, .acted action reply) :: traceOf later := by simp [hacted]
  obtain ⟨others, mid, hearlier, -⟩ := timely.setting.opened_before_acted timely.undiverted.toUnintercepted timely.fresh
    timely.runs lineage hlaunched (mem_life_of_split htrace hframe) hsplit hactor
  have hagain : traceOf record = others ++ (opener, .acted (.enroll group args) opening) ::
      (mid ++ (flusher, .acted action reply) :: traceOf later) := by
    rw [hsplit, hearlier]
    simp
  have recorded := (timely.setting.books timely.fresh timely.runs).recorded
  obtain ⟨rfl, -⟩ := recorded.enrolled_once htrace hagain rfl
  obtain ⟨seen, stamp, rest, hseen, hothers, -⟩ := exists_stamp hearlier
  have hopened_first : record = seen ++ (stamp, opener, .acted (.enroll group args) opening) ::
      (rest ++ (time, flusher, .acted action reply) :: later) := by
    rw [hacted, hseen]
    simp
  have hlength : seen.length = before.length := by simpa [traceOf] using congrArg List.length hothers
  obtain ⟨rfl, hrest⟩ := List.append_inj (hopened_first.symm.trans hrecord) hlength
  obtain ⟨hentry, rfl⟩ := List.cons.inj hrest
  cases hentry
  exact ⟨rest, hseen, rfl⟩

end Timely

/-- A call opens a batch: it is enrolled at some time in some frame of a process, which serves it with some window. -/
structure Opens (underlying : Nat → Function) (record before after : Record) (start : Nat) (opener : TaskId)
    (frame window : Nat) (group : BatchGroup) (args : List Value) (opening : Enrolment) : Prop where
  enrolled : record = before ++ (start, opener, .acted (.enroll group args) opening) :: after
  actor : (Roll.after (deeds (traceOf before) opener)).actor (.acted (.enroll group args) opening) = frame
  opened : opening.opened = true
  serves : Serves (traceOf record) opener frame group.batcher window group.definition (underlying group.definition)
    (some group.key) args

/-- A flush has been put to work for an open batch: it has set its timer at some time after the batch was opened, and has
done nothing since. -/
structure SetOff (record seen : Record) (flusher : TaskId) (window : Nat) (group : BatchGroup) (function : Function)
    (time : Nat) (timer : TimerId) : Prop where
  pushed : .pushed (flush group function window) none ∈ life (deeds (traceOf record) flusher) 1
  course : ∃ begun, strides (life (deeds (traceOf record) flusher) 1) =
    [.resumed begun, .acted (.arm window) (some timer)]
  set : (time, flusher, .acted (.arm window) (some timer)) ∈ seen

/-- What a frame does among the acts of a record it does at some time. -/
theorem exists_of_stride {record : Record} {task : TaskId} {number : Nat} {earlier later : List Act} {act : Act}
    (hstrides : strides (life (deeds (traceOf record) task) number) = earlier ++ act :: later) :
    ∃ before time after, record = before ++ (time, task, act) :: after ∧
      (Roll.after (deeds (traceOf before) task)).actor act = number ∧
      strides (life (deeds (traceOf before) task) number) = earlier := by
  obtain ⟨own, more, hdeeds, hactor, hearlier⟩ := exists_of_strides hstrides
  obtain ⟨others, rest, htrace, rfl, -⟩ := exists_of_deeds hdeeds
  obtain ⟨before, time, after, hrecord, rfl, -⟩ := exists_stamp htrace
  exact ⟨before, time, after, hrecord, hactor, hearlier⟩

namespace Timely

variable {machine : Machine} {underlying : Nat → Function} {first : Host} {record before after mid later : Record}
variable {system middle : System} {task opener flusher : TaskId} {number frame window start : Nat} {group : BatchGroup}
variable {function : Function} {tag : Option HandlerTag} {args : List Value} {opening : Enrolment}
variable (timely : Timely machine underlying first record system)
include timely

/-- A call that opens a batch later on has opened it by now. -/
theorem opens_earlier (opens : Opens underlying record before (mid ++ later) start opener frame window group args opening) :
    Opens underlying (before ++ (start, opener, .acted (.enroll group args) opening) :: mid) before mid start opener frame
      window group args opening where
  enrolled := rfl
  actor := opens.actor
  opened := opens.opened
  serves := by
    obtain ⟨kind, tag, hpushed⟩ := opens.serves
    have hdeeds : deeds (traceOf record) opener =
        deeds (traceOf (before ++ (start, opener, .acted (.enroll group args) opening) :: mid)) opener ++
          deeds (traceOf later) opener := by
      rw [← deeds_append, ← traceOf_append, opens.enrolled]
      simp
    have hlived : life (deeds (traceOf (before ++ (start, opener, .acted (.enroll group args) opening) :: mid)) opener)
        frame ≠ [] := by
      refine List.ne_nil_of_mem (a := .acted (.enroll group args) opening) ?_
      exact mem_life_of_split (traceOf_append before _) opens.actor
    exact ⟨kind, tag, timely.runs.pushed_of_prefix hpushed _ hdeeds hlived⟩

/-- When nobody can run, a flush with its timer has been put to work for every open batch with a window. -/
theorem exists_setOff (resting : system.Resting) (hwindow : window ≠ 0)
    (opens : Opens underlying record before after start opener frame window group args opening)
    (hkept : ∀ entry ∈ after, entry.2.2.removes group = false) :
    ∃ flusher time timer, SetOff record after flusher window group (underlying group.definition) time timer := by
  have unintercepted := timely.undiverted.toUnintercepted
  obtain ⟨descent, lineage⟩ := timely.setting.lineage unintercepted timely.fresh timely.runs
  have htrace : traceOf record = traceOf before ++ (opener, .acted (.enroll group args) opening) :: traceOf after := by
    simp [opens.enrolled]
  have hopening := mem_life_of_split htrace opens.actor
  obtain ⟨_, _, _, begun, rest, -, htruthy, hstrides, -⟩ :=
    timely.setting.service_of_enroll timely.fresh timely.runs hopening
  obtain ⟨kind, tag, hpushed⟩ := opens.serves
  have hperformed := timely.performed_launch resting hwindow htruthy opens.opened hpushed hstrides
  obtain ⟨flusher, hlaunched⟩ := Setting.launched_of_performed unintercepted lineage timely.undiverted.forks
    timely.parked_scheduled (timely.calm_deeds opener) hperformed
  have hflush := timely.pushed_of_launched lineage resting hlaunched
  -- if the flush had collected, then the batch would not be open
  have hwaiting (calls : List Enrolled) : .acted (.collect group) calls ∉ life (deeds (traceOf record) flusher) 1 := by
    intro hcollected
    obtain ⟨others, more, hsplit, hactor⟩ := exists_of_life hcollected
    obtain ⟨earlier, time, later, hrecord, rfl, -⟩ := exists_stamp hsplit
    obtain ⟨mid, -, rfl⟩ := timely.after_opening lineage hlaunched opens.enrolled opens.actor hrecord hactor
    have hfalse := hkept (time, flusher, .acted (.collect group) calls) (by simp)
    simp [Act.removes] at hfalse
  obtain ⟨begun, timer, hcourse, -⟩ := timely.armed_of_pushed resting hwindow hflush hwaiting
  have hset : strides (life (deeds (traceOf record) flusher) 1) =
    [.resumed begun] ++ .acted (.arm window) (some timer) :: [] := hcourse
  obtain ⟨earlier, time, later, hrecord, hactor, -⟩ := exists_of_stride hset
  obtain ⟨mid, -, rfl⟩ := timely.after_opening lineage hlaunched opens.enrolled opens.actor hrecord hactor
  exact ⟨flusher, time, timer, hflush, ⟨begun, hcourse⟩, by simp⟩

end Timely
end Batch
end EffectMachine
