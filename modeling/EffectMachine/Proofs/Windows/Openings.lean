import EffectMachine.Proofs.Windows.Flushes

/-!
# Open batches with windows

While a batch with a window is open the system goes on, and no more time passes than its window.  The flush has set its
timer at the time at which the batch was opened, because time does not pass before it has done so, and the clock does not
jump past that timer.

* `Clocked.exists_acted` finds the system that is about to do something.
* `Batch.Timely.exists_timer` says that a timer stands for every open batch when nobody can run.
* `Batch.Timely.now_le` says that a batch is not open any more when its window has passed, and `Batch.Timely.goes_on` that
  the system does not come to its end before.
-/

namespace EffectMachine

/-- A system that has come to its end has nobody who can run, and no timer that is still to run out. -/
theorem System.resting_of_step {machine : Machine} {system : System} (hstep : system.step machine = none) :
    system.Resting ∧ system.host.timers.advance? = none := by
  unfold System.step at hstep
  split at hstep
  · cases hstep
  · cases hstep
  · rename_i hidle
    unfold System.idle at hstep
    split at hstep
    · cases hstep
    · rename_i hnobody
      exact ⟨⟨hidle, hnobody⟩, Option.map_eq_none_iff.1 hstep⟩

namespace Clocked

variable {machine : Machine} {first : Host} {record before after : Record} {system : System} {time : Nat}
variable {task : TaskId}

/-- What a computation does by itself is all that is done by a step, at the time of the step. -/
theorem exists_acted (clocked : Clocked machine first record system) {action : Action} {reply : action.Reply}
    (hrecord : record = before ++ (time, task, .acted action reply) :: after) :
    ∃ middle, Clocked machine first before middle ∧ middle.host.timers.now = time := by
  induction clocked generalizing after with
  | start => simp at hrecord
  | @step record system next clocked hown hstep ih =>
      cases System.stepCases hstep with
      | still hstamped htimers => exact ih (by rwa [hstamped, List.append_nil] at hrecord)
      | jumps ids hjumps => exact ih (by rwa [System.stamped_of_idle hjumps.idle, List.append_nil] at hrecord)
      | advances hcurrent hadvances htimers hstamped =>
          rw [hstamped] at hrecord
          rcases split_of_stamped hrecord with ⟨rest, hold⟩ | ⟨earlier, rest, rfl, rfl, rfl, -⟩
          · exact ih hold
          · obtain ⟨rfl, -⟩ := hadvances.acted_of_split rfl
            exact ⟨system, by simpa using clocked, rfl⟩

end Clocked

namespace Batch
namespace Timely

variable {machine : Machine} {underlying : Nat → Function} {first : Host} {record before after mid later : Record}
variable {system middle : System} {task opener flusher : TaskId} {number frame window start time : Nat} {group : BatchGroup}
variable {function : Function} {tag : Option HandlerTag} {args : List Value} {opening : Enrolment}
variable (timely : Timely machine underlying first record system)
include timely

/-- When nobody can run, the flush of an open batch has set its timer at the time at which the batch was opened. -/
theorem set_at_start (resting : system.Resting) (hwindow : window ≠ 0)
    (opens : Opens underlying record before after start opener frame window group args opening)
    (hkept : ∀ entry ∈ after, entry.2.2.removes group = false) :
    ∃ mid later flusher timer, after = mid ++ later ∧
      SetOff (before ++ (start, opener, .acted (.enroll group args) opening) :: mid) mid flusher window group
        (underlying group.definition) start timer := by
  have hmem : (start, opener, .acted (.enroll group args) opening) ∈ record := by simp [opens.enrolled]
  rcases Nat.lt_or_eq_of_le (timely.clocked.le_now hmem) with hpassed | hnow
  · -- nobody could run once at the time at which the batch was opened
    obtain ⟨earlier, more, calm, hrecord, clocked, hcalm, hnow, hlater⟩ := timely.clocked.exists_rest hmem hpassed
    rcases split_of_append (hrecord.symm.trans opens.enrolled) with ⟨mid, rfl, rfl⟩ | ⟨rest, -, rfl⟩
    · have hopens := timely.opens_earlier opens
      have earlier := timely.earlier hrecord clocked
      obtain ⟨flusher, time, timer, hset⟩ := earlier.exists_setOff hcalm hwindow hopens fun entry hentry =>
        hkept entry (List.mem_append_left more hentry)
      have hle := clocked.le_now (List.mem_append_right before (List.mem_cons_of_mem _ hset.set))
      have hge := clocked.le_of_mem_after hopens.enrolled hset.set
      obtain rfl : time = start := by omega
      exact ⟨mid, more, flusher, timer, rfl, hset⟩
    · exact absurd (hlater _ (List.mem_append_right rest List.mem_cons_self)) (Nat.lt_irrefl _)
  · obtain ⟨flusher, time, timer, hset⟩ := timely.exists_setOff resting hwindow opens hkept
    have hle := timely.clocked.le_now
      (opens.enrolled ▸ List.mem_append_right before (List.mem_cons_of_mem _ hset.set))
    have hge := timely.clocked.le_of_mem_after opens.enrolled hset.set
    obtain rfl : time = start := by omega
    exact ⟨after, [], flusher, timer, by simp, opens.enrolled ▸ hset⟩

/-- While a batch with a window is open and nobody can run, a timer stands for it that is due when the window has passed. -/
theorem exists_timer (resting : system.Resting) (hwindow : window ≠ 0)
    (opens : Opens underlying record before after start opener frame window group args opening)
    (hkept : ∀ entry ∈ after, entry.2.2.removes group = false) :
    ∃ timer, system.host.timers.Holds timer ∧ timer ∉ system.host.timers.expired ∧
      system.host.timers.Due timer (start + window) := by
  obtain ⟨mid, later, flusher, timer, rfl, hset⟩ := timely.set_at_start resting hwindow opens hkept
  have hrecord : record = (before ++ (start, opener, .acted (.enroll group args) opening) :: mid) ++ later := by
    simp [opens.enrolled]
  obtain ⟨more, hmore⟩ := life_prefix
    (deeds (traceOf (before ++ (start, opener, .acted (.enroll group args) opening) :: mid)) flusher)
    (deeds (traceOf later) flusher) 1
  rw [← deeds_append, ← traceOf_append, ← hrecord] at hmore
  obtain ⟨begun, hcourse⟩ := hset.course
  have hpushed : .pushed (flush group (underlying group.definition) window) none ∈ life (deeds (traceOf record) flusher) 1 :=
    hmore ▸ List.mem_append_left _ hset.pushed
  -- the flush has not collected since, as the batch is open
  have hwaiting (calls : List Enrolled) : .acted (.collect group) calls ∉ life (deeds (traceOf record) flusher) 1 := by
    intro hcollected
    obtain ⟨others, rest, hsplit, hactor⟩ := exists_of_life hcollected
    obtain ⟨earlier, time, behind, hcollect, rfl, -⟩ := exists_stamp hsplit
    rcases split_of_append (hrecord.symm.trans hcollect) with ⟨rest, hearly, -⟩ | ⟨rest, -, rfl⟩
    · have hearlier : traceOf (before ++ (start, opener, .acted (.enroll group args) opening) :: mid) =
          traceOf earlier ++ (flusher, .acted (.collect group) calls) :: traceOf rest := by
        rw [hearly]
        simp
      have hmem := mem_strides.2 ⟨mem_life_of_split hearlier hactor,
        show (Act.acted (.collect group) calls).isStride = true from rfl⟩
      rw [hcourse] at hmem
      simp only [List.mem_cons, reduceCtorEq, List.not_mem_nil, or_false, false_or] at hmem
      cases hmem
    · have hfalse := hkept (time, flusher, .acted (.collect group) calls) (by simp)
      simp [Act.removes] at hfalse
  obtain ⟨again, other, hstrides, hsilent⟩ := timely.armed_of_pushed resting hwindow hpushed hwaiting
  obtain rfl : timer = other := by
    have hsame := hstrides
    rw [hmore, strides_append, hcourse] at hsame
    simp only [List.cons_append, List.nil_append, List.cons.injEq] at hsame
    cases hsame.2.1
    rfl
  have hdue := timely.timed.due start flusher window timer (by simp [hrecord, hset.set])
  have harmed : strides (life (deeds (traceOf record) flusher) 1) =
    [.resumed again] ++ .acted (.arm window) (some timer) :: [] := hstrides
  obtain ⟨earlier, time, behind, hsplit, hactor, -⟩ := exists_of_stride harmed
  rcases timely.timed.held earlier time flusher window timer behind hsplit with holds | ⟨act, hmem, hstops⟩
  · exact ⟨timer, holds, hsilent, hdue⟩
  · cases act with
    | acted action reply =>
        rw [hactor] at hmem
        have hstride : .acted action reply ∈ strides (life (deeds (traceOf record) flusher) 1) := mem_strides.2 ⟨hmem, rfl⟩
        rw [hstrides] at hstride
        simp only [List.mem_cons, reduceCtorEq, List.not_mem_nil, or_false, false_or] at hstride
        cases hstride
        cases hstops
    | _ => cases hstops

/-- A batch is not open any more when its window has passed. -/
theorem now_le (hwindow : window ≠ 0)
    (opens : Opens underlying record before after start opener frame window group args opening)
    (hkept : ∀ entry ∈ after, entry.2.2.removes group = false) : system.host.timers.now ≤ start + window := by
  have clocked := timely.clocked
  induction clocked generalizing after with
  | start => exact absurd opens.enrolled (by simp)
  | @step record system next clocked hown hstep ih =>
      have earlier : Timely machine underlying first record system := timely.earlier rfl clocked
      cases System.stepCases hstep with
      | still hstamped htimers =>
          rw [hstamped, List.append_nil] at opens
          rw [htimers]
          exact ih earlier opens hkept
      | jumps ids hjumps =>
          rw [System.stamped_of_idle hjumps.idle, List.append_nil] at opens
          obtain ⟨timer, holds, hsilent, hdue⟩ := earlier.exists_timer hjumps.resting hwindow opens hkept
          exact holds.now_le_due hsilent hdue hjumps.advance
      | advances hcurrent hadvances htimers hstamped =>
          rw [htimers, hadvances.ticks.now]
          rcases split_of_append opens.enrolled with ⟨rest, rfl, rfl⟩ | ⟨rest, -, hnew⟩
          · exact ih earlier (timely.opens_earlier opens) fun entry hentry => hkept entry (List.mem_append_left _ hentry)
          · have hstart := System.time_of_mem_stamped (hnew ▸ List.mem_append_right rest List.mem_cons_self)
            omega

/-- While a batch with a window is open the system goes on. -/
theorem goes_on (hwindow : window ≠ 0)
    (opens : Opens underlying record before after start opener frame window group args opening)
    (hkept : ∀ entry ∈ after, entry.2.2.removes group = false) : system.step machine ≠ none := by
  intro hstep
  obtain ⟨resting, hadvance⟩ := System.resting_of_step hstep
  obtain ⟨timer, holds, hsilent, -⟩ := timely.exists_timer resting hwindow opens hkept
  obtain ⟨ids, later, hjump⟩ := holds.exists_advance? hsilent
  cases hjump.symm.trans hadvance

end Timely
end Batch
end EffectMachine
