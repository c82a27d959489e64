import EffectMachine.Proofs.Windows.Closings

/-!
# Batch windows are fixed

A batch with a window is flushed when its window has passed since it was opened, whatever calls join it meanwhile.  So the
calls of a group come in runs, one for each batch, and batches with windows are opened at least a window apart.

* `Batch.enrolledIn_eq` says that batches cut the calls of a group into runs.
* `Batch.FlushedAt` says what becomes of a batch with a window.
* `Batch.fixed_window` is the main statement, for all that can be recorded of a system with batches.
* `Batch.left_out_of_window` is a run with a call that is enrolled at the time at which a batch is opened, and is part of
  the batch before.
-/

namespace EffectMachine

/-- The calls that an act collects from the batch of a group, if it does. -/
def Act.collection (group : BatchGroup) : Act → List (List Enrolled)
  | .acted (.collect other) calls => if other = group then [calls] else []
  | _ => []

theorem Act.of_mem_joins {group : BatchGroup} {call : Enrolled} {act : Act} (hjoins : call ∈ act.joins group) :
    ∃ enrolment : Enrolment, act = .acted (.enroll group call.args) enrolment ∧ enrolment.slot = call.slot := by
  unfold Act.joins at hjoins
  split at hjoins
  · rename_i other args enrolment
    split at hjoins
    · rename_i hsame
      subst hsame
      rw [List.mem_singleton.1 hjoins]
      exact ⟨enrolment, rfl, rfl⟩
    · cases hjoins
  · cases hjoins

namespace Batch

/-- The batches of a group that were ever collected, in order. -/
def collectedIn (group : BatchGroup) (trace : Trace) : List (List Enrolled) :=
  trace.flatMap fun entry => entry.2.collection group

section Recorded

variable {trace before mid after : Trace} {task running : TaskId} {group : BatchGroup} {args more : List Value}
variable {enrolment opening : Enrolment} {act : Act}

/-- Batches cut the calls of a group into runs, as long as none is abandoned. -/
theorem enrolledIn_eq (recorded : Recorded trace) (hkept : ∀ entry ∈ trace, entry.2 ≠ .acted (.abandon group) ()) :
    enrolledIn group trace = (collectedIn group trace).flatten ++ booked group trace := by
  induction trace using List.reverseRecOn with
  | nil => rfl
  | append_singleton trace last ih =>
      obtain ⟨task, act⟩ := last
      have hearlier := ih recorded.left fun entry hentry => hkept entry (List.mem_append_left _ hentry)
      have henrolled : enrolledIn group (trace ++ [(task, act)]) = enrolledIn group trace ++ act.joins group := by
        simp [enrolledIn]
      have hcollected : collectedIn group (trace ++ [(task, act)]) = collectedIn group trace ++ act.collection group := by
        simp [collectedIn]
      rw [henrolled, hcollected, booked_concat, hearlier]
      split
      · rename_i hremoves
        unfold Act.removes at hremoves
        split at hremoves
        · rename_i other calls
          obtain rfl : other = group := of_decide_eq_true hremoves
          have hcalls : calls = booked other trace := recorded trace task _ [] rfl
          simp [Act.joins, Act.collection, hcalls]
        · rename_i other reply
          obtain rfl : other = group := of_decide_eq_true hremoves
          exact absurd rfl (hkept (task, .acted (.abandon other) reply) (by simp))
        · cases hremoves
      · rename_i hremoves
        have hnone : act.collection group = [] := by
          unfold Act.collection
          split
          · rename_i other calls
            exact if_neg fun hsame => hremoves (decide_eq_true hsame)
          · rfl
        simp [hnone]

/-- While a batch is open no other batch of its group is opened. -/
theorem not_opened_again (recorded : Recorded trace)
    (htrace : trace = before ++ (task, .acted (.enroll group args) opening) ::
      (mid ++ (running, .acted (.enroll group more) enrolment) :: after))
    (hkept : ∀ entry ∈ mid, entry.2.removes group = false) : enrolment.opened = false := by
  have hsplit : trace = (before ++ (task, .acted (.enroll group args) opening) :: mid) ++
      (running, .acted (.enroll group more) enrolment) :: after := by simp [htrace]
  rw [Bool.eq_false_iff]
  intro hopened
  have hempty := (recorded _ _ _ _ hsplit).2.1 hopened
  rw [booked_append (List.forall_mem_cons.2 ⟨rfl, hkept⟩)] at hempty
  simp [Act.joins] at hempty

/-- The first call after a batch was closed opens the next one. -/
theorem opened_of_removes (recorded : Recorded trace) (hremoves : act.removes group = true)
    (htrace : trace = before ++ (task, act) :: (mid ++ (running, .acted (.enroll group more) enrolment) :: after))
    (hquiet : ∀ entry ∈ mid, entry.2.joins group = []) : enrolment.opened = true := by
  have hsplit : trace = (before ++ (task, act) :: mid) ++ (running, .acted (.enroll group more) enrolment) :: after := by
    simp [htrace]
  refine (recorded _ _ _ _ hsplit).2.2 ?_
  clear hsplit htrace
  induction mid using List.reverseRecOn with
  | nil => simp [booked_concat, hremoves]
  | append_singleton mid last ih =>
      have hbooked := ih fun entry hentry => hquiet entry (List.mem_append_left _ hentry)
      have hlast := hquiet last (by simp)
      obtain ⟨other, late⟩ := last
      rw [← List.cons_append, ← List.append_assoc, booked_concat, hbooked, hlast]
      simp

end Recorded

/-- A batch with a window that a call has opened at some time was flushed: after the acts of `mid` its calls were collected,
when the window had passed, and then came those of `later`. -/
structure FlushedAt (machine : Machine) (function : Function) (record mid later : Record) (system : System)
    (start window : Nat) (group : BatchGroup) (opener : Enrolled) (flusher : TaskId) (calls : List Enrolled) : Prop where
  /-- The batch was open until then. -/
  kept : ∀ entry ∈ mid, entry.2.2.removes group = false
  /-- It consists of the call that opened it and of those that joined it, in order. -/
  members : calls = opener :: (traceOf mid).flatMap fun entry => entry.2.joins group
  /-- Each call of the group that was enrolled after the opening, and before the window had passed, is part of it. -/
  joined : ∀ time task args enrolment, (time, task, .acted (.enroll group args) enrolment) ∈ mid ++ later →
    time < start + window → ⟨args, (enrolment : Enrolment).slot⟩ ∈ calls
  /-- No other call that was enrolled before it was opened, or after its window had passed, is part of it. -/
  bounded : ∀ time task args enrolment, (time, task, .acted (.enroll group args) enrolment) ∈ record →
    ⟨args, (enrolment : Enrolment).slot⟩ ∈ calls → start ≤ time ∧ time ≤ start + window
  /-- The function is invoked for its calls at the time at which they are collected, unless it is this time still. -/
  invoked : (system.host.timers.now = start + window ∧ system.step machine ≠ none) ∨
    InvokedAt machine record (start + window) flusher 1 function (calls.map Enrolled.args)
  /-- The first call after the flush opens the next batch. -/
  next : ∀ rest time task args enrolment behind,
    later = rest ++ (time, task, .acted (.enroll group args) enrolment) :: behind →
    (∀ entry ∈ rest, entry.2.2.joins group = []) → (enrolment : Enrolment).opened = true
  /-- Each batch of the group that was opened after it was opened no earlier than when its window had passed. -/
  apart : ∀ time task args enrolment, (time, task, .acted (.enroll group args) enrolment) ∈ mid ++ later →
    (enrolment : Enrolment).opened = true → start + window ≤ time

namespace Timely

variable {machine : Machine} {underlying : Nat → Function} {first : Host} {record before after mid later : Record}
variable {system : System} {task running opener : TaskId} {frame window start time stamp : Nat} {group : BatchGroup}
variable {args more : List Value} {enrolment second opening : Enrolment}
variable (timely : Timely machine underlying first record system)
include timely

/-- A call is enrolled at one time. -/
theorem enrolled_at_once (hfirst : (time, task, .acted (.enroll group args) enrolment) ∈ record)
    (hsecond : (stamp, running, .acted (.enroll group more) second) ∈ record) (hslot : enrolment.slot = second.slot) :
    time = stamp := by
  obtain ⟨before, after, hbefore⟩ := List.append_of_mem hfirst
  obtain ⟨others, later, hothers⟩ := List.append_of_mem hsecond
  have htrace : traceOf record = traceOf before ++ (task, .acted (.enroll group args) enrolment) :: traceOf after := by
    simp [hbefore]
  have hagain : traceOf record = traceOf others ++ (running, .acted (.enroll group more) second) :: traceOf later := by
    simp [hothers]
  obtain ⟨hsame, -⟩ := timely.recorded.enrolled_once htrace hagain hslot
  have hlength : before.length = others.length := by simpa [traceOf] using congrArg List.length hsame
  obtain ⟨-, hrest⟩ := List.append_inj (hbefore.symm.trans hothers) hlength
  exact (Prod.mk.inj (List.cons.inj hrest).1).1

/-- Every call is part of a batch that some call has opened, and which was not closed in between. -/
theorem exists_opens (hrecord : record = before ++ (time, task, .acted (.enroll group args) enrolment) :: after) :
    ∃ earlier mid start opener frame window more opening,
      before ++ [(time, task, .acted (.enroll group args) enrolment)] =
        earlier ++ (start, opener, .acted (.enroll group more) opening) :: mid ∧
      Opens underlying record earlier (mid ++ after) start opener frame window group more opening ∧
      ∀ entry ∈ mid, entry.2.2.removes group = false := by
  have htrace : traceOf record = traceOf before ++ (task, .acted (.enroll group args) enrolment) :: traceOf after := by
    simp [hrecord]
  obtain ⟨older, opener, more, opening, mid, hbatch, hopened, hkept⟩ := exists_batch timely.recorded htrace
  have hsplit : traceOf (before ++ [(time, task, .acted (.enroll group args) enrolment)]) =
      older ++ (opener, .acted (.enroll group more) opening) :: mid := by simpa using hbatch
  obtain ⟨earlier, start, between, hearlier, rfl, rfl⟩ := exists_stamp hsplit
  have henrolled : record = earlier ++ (start, opener, .acted (.enroll group more) opening) :: (between ++ after) := by
    rw [hrecord, List.append_cons, hearlier]
    simp
  have hopening : traceOf record = traceOf earlier ++ (opener, .acted (.enroll group more) opening) ::
      traceOf (between ++ after) := by simp [henrolled]
  obtain ⟨kind, window, tag, -, -, hpushed, -⟩ :=
    timely.setting.service_of_enroll timely.fresh timely.runs (mem_life_of_split hopening rfl)
  refine ⟨earlier, between, start, opener, _, window, more, opening, hearlier, ⟨henrolled, rfl, hopened, kind, tag, hpushed⟩,
    fun entry hentry => hkept entry.2 (List.mem_map_of_mem hentry)⟩

/-- A batch with a window that is closed was flushed when its window had passed. -/
theorem flushed_of_removes (hwindow : window ≠ 0) {act : Act}
    (opens : Opens underlying record before (mid ++ (time, task, act) :: later) start opener frame window group args opening)
    (hkept : ∀ entry ∈ mid, entry.2.2.removes group = false) (hremoves : act.removes group = true) :
    ∃ calls, (time, act) = (start + window, .acted (.collect group) calls) ∧
      FlushedAt machine (underlying group.definition) record mid later system start window group ⟨args, opening.slot⟩ task
        calls := by
  obtain ⟨calls, rfl, hcalls, hplace, hpushed, rfl⟩ := timely.collected_at hwindow opens hkept hremoves
  have hrecord : record = (before ++ (start, opener, .acted (.enroll group args) opening) :: mid) ++
      (start + window, task, .acted (.collect group) calls) :: later := by simp [opens.enrolled]
  have hopening : (start, opener, .acted (.enroll group args) opening) ∈ record := by simp [hrecord]
  have hlate {stamp : Nat} {entry : TaskId × Act} (hmem : (stamp, entry) ∈ later) : start + window ≤ stamp :=
    timely.clocked.le_of_mem_after hrecord hmem
  have hmid {stamp : Nat} {entry : TaskId × Act} (hmem : (stamp, entry) ∈ mid) : start ≤ stamp ∧ stamp ≤ start + window := by
    refine ⟨timely.clocked.le_of_mem_after opens.enrolled (List.mem_append_left _ hmem), ?_⟩
    obtain ⟨one, two, htwo⟩ := List.append_of_mem hmem
    have hsplit : record = (before ++ (start, opener, .acted (.enroll group args) opening) :: one) ++ (stamp, entry) ::
        (two ++ (start + window, task, .acted (.collect group) calls) :: later) := by simp [hrecord, htwo]
    exact timely.clocked.le_of_mem_after hsplit (List.mem_append_right two List.mem_cons_self)
  refine ⟨calls, rfl, hkept, hcalls, ?_, ?_, timely.invoked_at hwindow hpushed hrecord hplace, ?_, ?_⟩
  · intro stamp caller more enrolment hmem hearly
    rcases List.mem_append.1 hmem with hmem | hmem
    · rw [hcalls]
      refine List.mem_cons_of_mem _ (List.mem_flatMap.2 ⟨_, mem_traceOf.2 ⟨stamp, hmem⟩, ?_⟩)
      simp [Act.joins]
    · have := hlate hmem
      omega
  · intro stamp caller more enrolment hmem hcall
    rw [hcalls] at hcall
    rcases List.mem_cons.1 hcall with hfirst | hjoined
    · obtain rfl : stamp = start :=
        timely.enrolled_at_once hmem hopening (Enrolled.mk.inj hfirst).2
      omega
    · obtain ⟨⟨joiner, act⟩, hjoiner, hjoins⟩ := List.mem_flatMap.1 hjoined
      obtain ⟨other, rfl, hslot⟩ := Act.of_mem_joins hjoins
      obtain ⟨joined, hbetween⟩ := mem_traceOf.1 hjoiner
      have hlisted : (joined, joiner, .acted (.enroll group more) other) ∈ record := by simp [hrecord, hbetween]
      obtain rfl : stamp = joined := timely.enrolled_at_once hmem hlisted hslot.symm
      exact hmid hbetween
  · intro rest stamp caller more enrolment behind hlater hquiet
    have htrace : traceOf record = traceOf (before ++ (start, opener, .acted (.enroll group args) opening) :: mid) ++
        (task, .acted (.collect group) calls) :: (traceOf rest ++ (caller, .acted (.enroll group more) enrolment) ::
          traceOf behind) := by
      rw [hrecord, hlater]
      simp
    exact opened_of_removes timely.recorded hremoves htrace (List.forall_mem_map.2 hquiet)
  · intro stamp caller more enrolment hmem hopened
    rcases List.mem_append.1 hmem with hmem | hmem
    · obtain ⟨one, two, rfl⟩ := List.append_of_mem hmem
      have htrace : traceOf record = traceOf before ++ (opener, .acted (.enroll group args) opening) ::
          (traceOf one ++ (caller, .acted (.enroll group more) enrolment) ::
            traceOf (two ++ (start + window, task, .acted (.collect group) calls) :: later)) := by
        simp [hrecord]
      have hjoined := not_opened_again timely.recorded htrace
        (List.forall_mem_map.2 fun entry hentry => hkept entry (List.mem_append_left _ hentry))
      cases hopened.symm.trans hjoined
    · exact hlate hmem

end Timely

/-- Batch windows are fixed, when no plugin has a say in calls, in the running of computations and in forks, and nobody is
canceled.  Batches cut the calls of each group into runs, in the order in which they were enrolled, and each call is part of
the batch that was open then or that it has opened itself.  A batch with a window is open at most until its window has
passed, and then it is flushed, with exactly the calls that were enrolled from its opening until then. -/
theorem fixed_window {machine : Machine} {underlying : Nat → Function} {first : Host} {record : Record} {system : System}
    (timely : Timely machine underlying first record system) :
    (∀ group, enrolledIn group (traceOf record) =
      (collectedIn group (traceOf record)).flatten ++ booked group (traceOf record)) ∧
    (∀ before after time task group args enrolment,
      record = before ++ (time, task, .acted (.enroll group args) enrolment) :: after →
      ∃ earlier mid start opener frame window more opening,
        before ++ [(time, task, .acted (.enroll group args) enrolment)] =
          earlier ++ (start, opener, .acted (.enroll group more) opening) :: mid ∧
        Opens underlying record earlier (mid ++ after) start opener frame window group more opening ∧
        ∀ entry ∈ mid, entry.2.2.removes group = false) ∧
    ∀ before after start opener frame window group args opening,
      Opens underlying record before after start opener frame window group args opening → 0 < window →
      ((∀ entry ∈ after, entry.2.2.removes group = false) ∧ system.host.timers.now ≤ start + window ∧
        system.step machine ≠ none) ∨
      ∃ mid later flusher calls, after = mid ++ (start + window, flusher, .acted (.collect group) calls) :: later ∧
        FlushedAt machine (underlying group.definition) record mid later system start window group ⟨args, opening.slot⟩
          flusher calls := by
  refine ⟨fun group => enrolledIn_eq timely.recorded fun entry hentry habandoned => ?_, ?_, ?_⟩
  · obtain ⟨task, act⟩ := entry
    obtain rfl : act = .acted (.abandon group) () := habandoned
    obtain ⟨time, hmem⟩ := mem_traceOf.1 hentry
    exact timely.not_abandoned hmem
  · intro before after time task group args enrolment hrecord
    exact timely.exists_opens hrecord
  · intro before after start opener frame window group args opening opens hpos
    have hwindow : window ≠ 0 := Nat.pos_iff_ne_zero.1 hpos
    by_cases hkept : ∀ entry ∈ after, entry.2.2.removes group = false
    · exact .inl ⟨hkept, timely.now_le hwindow opens hkept, timely.goes_on hwindow opens hkept⟩
    · -- the batch was closed a first time
      simp only [not_forall, Bool.not_eq_false] at hkept
      obtain ⟨entry, hentry, hremoves⟩ := hkept
      obtain ⟨between, closer, act, rest, htrace, hcloses, hopen⟩ :=
        exists_removal (mem_traceOf.2 ⟨entry.1, hentry⟩) hremoves
      obtain ⟨mid, time, later, rfl, rfl, -⟩ := exists_stamp htrace
      obtain ⟨calls, hentry, flushed⟩ := timely.flushed_of_removes hwindow opens
        (fun entry hmem => hopen entry.2 (List.mem_map_of_mem hmem)) hcloses
      cases hentry
      exact .inr ⟨mid, later, closer, calls, rfl, flushed⟩

/-! ## Calls that arrive one after another -/

/-- Clients each of whom waits for some delays, one after another, and then makes a call of the batched function. -/
def arriving (waits : List (List Nat)) : Host :=
  { callers (waits.map fun delays => (.blank 0, delays.foldr Body.sleep (.perform (callBatched (.int 1)) .done))) with
    scheduled := true }

/-- What becomes of the calls, and when. -/
def arrivals (window : Nat) (waits : List (List Nat)) : Record × System :=
  ({ host := arriving waits } : System).clock (echoing window) 110 []

/-- When the calls of a group were enrolled, in which processes and slots, and whether they have opened a batch. -/
def bookings (group : BatchGroup) (record : Record) : List (Nat × TaskId × Slot × Bool) :=
  record.filterMap fun
    | (time, task, .acted (.enroll other _) enrolment) =>
      if other = group then some (time, task, (enrolment : Enrolment).slot, (enrolment : Enrolment).opened) else none
    | _ => none

/-- When the batches of a group were collected, and the slots of their calls. -/
def flushes (group : BatchGroup) (record : Record) : List (Nat × List Slot) :=
  record.filterMap fun
    | (time, _, .acted (.collect other) calls) =>
      if other = group then some (time, (calls : List Enrolled).map Enrolled.slot) else none
    | _ => none

/-- Whether an act forks something. -/
def forks : Act → Bool
  | .performed (.fork _) => true
  | _ => false

section Arrivals

variable {window : Nat} {waits : List (List Nat)}

theorem plain_delayed (delays : List Nat) (passed : BatchGroup → Prop) :
    (delays.foldr Body.sleep (.perform (callBatched (.int 1)) .done)).Plain (fun _ => shared) passed := by
  induction delays with
  | nil => exact plain_callBatched _ passed
  | cons delay delays ih =>
      refine ⟨rfl, fun reply => ?_⟩
      cases reply with
      | none => exact ih
      | some timer => exact ⟨rfl, fun _ => ih⟩

theorem timers_callers (calls : List (Context × Body)) : (callers calls).timers = {} :=
  List.foldlRecOn (motive := fun (host : Host) => host.timers = {}) calls _ rfl fun _ hhost _ _ => hhost

/-- What is recorded of calls that arrive one after another is a record in which nothing interferes with batches, unless
somebody takes note of a cancellation. -/
theorem timely_arrivals (hcalm : ((traceOf (arrivals window waits).1).any fun entry => entry.2.notices) = false) :
    Timely (echoing window) (fun _ => shared) (arriving waits) (arrivals window waits).1 (arrivals window waits).2 where
  setting := setting_echoing window
  undiverted := undiverted_echoing window
  fresh := by
    refine ⟨fun process hmem => ?_, batches_callers _⟩
    obtain ⟨call, hcall, hactivity⟩ := of_mem_callers hmem
    obtain ⟨delays, -, rfl⟩ := List.mem_map.1 hcall
    exact ⟨_, hactivity, plain_delayed delays⟩
  orderly := by
    have htimers : (arriving waits).timers = {} := timers_callers _
    rw [htimers]
    exact ⟨List.forall_mem_nil _, List.forall_mem_nil _⟩
  scheduled := rfl
  clocked := Clocked.start.clock 110
  calm := by
    intro time task hmem
    have hnone := List.any_eq_false.1 hcalm _ (mem_traceOf.2 ⟨time, hmem⟩)
    exact hnone rfl

end Arrivals

/-- A call that joins the batch of another call does not put off its flush. -/
theorem fixed_window_pair : ∃ mid later args opening flusher calls,
    FlushedAt (echoing 30) shared (arrivals 30 [[], [10]]).1 mid later (arrivals 30 [[], [10]]).2 0 30 ⟨0, 0, .str "k"⟩
      ⟨args, (opening : Enrolment).slot⟩ flusher calls ∧
    calls.map Enrolled.slot = [⟨0⟩, ⟨1⟩] := by
  have hcalm : ((traceOf (arrivals 30 [[], [10]]).1).any fun entry => entry.2.notices) = false := by decide +kernel
  have henrolls : enrolls ⟨0, 0, .str "k"⟩ (life (deeds (traceOf (arrivals 30 [[], [10]]).1) ⟨0⟩) 2) = true := by
    decide +kernel
  have hforks : (life (deeds (traceOf (arrivals 30 [[], [10]]).1) ⟨0⟩) 2).any forks = true := by decide +kernel
  have hbookings : bookings ⟨0, 0, .str "k"⟩ (arrivals 30 [[], [10]]).1 = [(0, ⟨0⟩, ⟨0⟩, true), (10, ⟨1⟩, ⟨1⟩, false)] := by decide +kernel
  have hflushes : flushes ⟨0, 0, .str "k"⟩ (arrivals 30 [[], [10]]).1 = [(30, [⟨0⟩, ⟨1⟩])] := by decide +kernel
  have hended : (arrivals 30 [[], [10]]).2.step (echoing 30) = none := by
    rw [← Option.isNone_iff_eq_none]
    decide +kernel
  have timely := timely_arrivals hcalm
  -- the first call opens a batch, and its service forks the flush
  obtain ⟨args, opening, henrolled⟩ := enrolled_of_enrolls henrolls
  obtain ⟨kind, window, tag, -, -, hpushed, -⟩ :=
    timely.setting.service_of_enroll timely.fresh timely.runs henrolled
  have hpos : 0 < window := by
    obtain ⟨act, hact, hfork⟩ := List.any_eq_true.1 hforks
    unfold forks at hfork
    split at hfork
    · have hlaunch := Setting.launch_of_performed timely.runs ⟨kind, tag, hpushed⟩ henrolled hact
      refine Nat.pos_of_ne_zero fun hzero => ?_
      rw [hzero] at hlaunch
      cases hlaunch
    · cases hfork
  obtain ⟨others, _, htrace, hactor⟩ := exists_of_life henrolled
  obtain ⟨before, start, after, hrecord, rfl, -⟩ := exists_stamp htrace
  have hopening : (start, ⟨0⟩, .acted (.enroll ⟨0, 0, .str "k"⟩ args) opening) ∈ (arrivals 30 [[], [10]]).1 := by
    rw [hrecord]
    simp
  have hbooked : (start, ⟨0⟩, opening.slot, opening.opened) ∈ bookings ⟨0, 0, .str "k"⟩ (arrivals 30 [[], [10]]).1 :=
    List.mem_filterMap.2 ⟨_, hopening, if_pos rfl⟩
  rw [hbookings] at hbooked
  obtain ⟨rfl, hslot, hopened⟩ : start = 0 ∧ opening.slot = ⟨0⟩ ∧ opening.opened = true := by simpa using hbooked
  obtain ⟨-, -, hfixed⟩ := fixed_window timely
  rcases hfixed before after 0 ⟨0⟩ 2 window _ args opening ⟨hrecord, hactor, hopened, kind, tag, hpushed⟩ hpos with
    ⟨-, -, hgoes⟩ | ⟨mid, later, flusher, calls, rfl, flushed⟩
  · exact absurd hended hgoes
  · have hcollected : (0 + window, flusher, .acted (.collect ⟨0, 0, .str "k"⟩) calls) ∈ (arrivals 30 [[], [10]]).1 := by
      rw [hrecord]
      simp
    have hflushed : (0 + window, calls.map Enrolled.slot) ∈ flushes ⟨0, 0, .str "k"⟩ (arrivals 30 [[], [10]]).1 :=
      List.mem_filterMap.2 ⟨_, hcollected, if_pos rfl⟩
    rw [hflushes] at hflushed
    obtain ⟨rfl, hcalls⟩ : window = 30 ∧ calls.map Enrolled.slot = [⟨0⟩, ⟨1⟩] := by simpa using hflushed
    exact ⟨mid, later, args, opening, flusher, calls, flushed, hcalls⟩

/-- A call that is enrolled at the time at which a batch is opened need not be part of this batch: it is part of the batch
before when it comes right before this is flushed.  The third call opens a batch at time 30, which is flushed at time 60;
the second call is enrolled at time 30 too. -/
theorem left_out_of_window :
    Timely (echoing 30) (fun _ => shared) (arriving [[], [30], [10, 20]]) (arrivals 30 [[], [30], [10, 20]]).1
      (arrivals 30 [[], [30], [10, 20]]).2 ∧
    bookings ⟨0, 0, .str "k"⟩ (arrivals 30 [[], [30], [10, 20]]).1 =
      [(0, ⟨0⟩, ⟨0⟩, true), (30, ⟨1⟩, ⟨1⟩, false), (30, ⟨2⟩, ⟨2⟩, true)] ∧
    flushes ⟨0, 0, .str "k"⟩ (arrivals 30 [[], [30], [10, 20]]).1 = [(30, [⟨0⟩, ⟨1⟩]), (60, [⟨2⟩])] :=
  ⟨timely_arrivals (by decide +kernel), by decide +kernel, by decide +kernel⟩

end Batch
end EffectMachine
