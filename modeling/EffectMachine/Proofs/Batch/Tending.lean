import EffectMachine.Proofs.Batch.Isolation

/-!
# Open batches are tended

A batch that is open was opened by a call whose service sees to it that the batch is closed: by a flush that it launches,
or by the service itself when the flush cannot be launched.

* `Batch.Setting.closed_of_completed` says that the batch of a call has been closed once its service has completed, unless
  the service was told that a flush without a window failed.
* `Batch.Tended` is where the closing of a batch stands, and `Batch.Setting.tended` says that every open batch is tended
  when no plugin handles the launch of its flush.
* `Batch.tended_of_open` collects this for all open batches, and says which calls open new ones.
-/

namespace EffectMachine

/-- A process took note of a cancellation, or one of its frames was discarded. -/
def CutOff (trace : Trace) (task : TaskId) (number : Nat) : Prop :=
  .noticed ∈ deeds trace task ∨ .dropped ∈ life (deeds trace task) number

/-- A computation that was not cut off and has not completed is still on its stack. -/
theorem Runs.mem_live {machine : Machine} {first : Host} {trace : Trace} {system : System} {task : TaskId} {number : Nat}
    {computation : Computation} {tag : Option HandlerTag} (runs : Runs machine first trace system)
    (hpushed : .pushed computation tag ∈ life (deeds trace task) number) (hkept : ¬ CutOff trace task number)
    (hrunning : ∀ outcome, .completed outcome ∉ life (deeds trace task) number) :
    number ∈ (Roll.after (deeds trace task)).live := by
  by_contra hgone
  obtain ⟨stack, hdrives⟩ := exists_drives (system.driven? task)
  have watched := runs.holds (Watched.invariant account) task hdrives
  have settled := watched.gone number (pos_of_pushed hpushed) (watched.tracks.lt_next_of_mem hpushed) hgone
  cases settled.ended with
  | completed outcome hcompleted => exact hrunning outcome hcompleted
  | dropped hmem => exact hkept (.inr hmem)
  | givenUp hmem => exact runs.not_mem_givenUp (fun hnoticed => hkept (.inl hnoticed)) number hmem

namespace Batch

variable {machine : Machine} {underlying : Nat → Function} {first : Host} {trace before after : Trace} {system : System}
variable {descent : Descent} {task opener flusher : TaskId} {number frame place : Nat} {group other : BatchGroup}
variable {args : List Value} {enrolment opening : Enrolment}

/-- The call that opened the batch of a group which is open: the batch was not closed since. -/
structure OpenedBy (trace : Trace) (group : BatchGroup) (opener : TaskId) (frame : Nat) (args : List Value)
    (opening : Enrolment) : Prop where
  opened : opening.opened = true
  enrolled : .acted (.enroll group args) opening ∈ life (deeds trace opener) frame
  kept : ∃ before after, trace = before ++ (opener, .acted (.enroll group args) opening) :: after ∧
    (Roll.after (deeds before opener)).actor (.acted (.enroll group args) opening) = frame ∧
    ∀ entry ∈ after, entry.2.removes group = false

/-- Every open batch was opened by a call. -/
theorem exists_openedBy (recorded : Recorded trace) (hopen : booked group trace ≠ []) :
    ∃ opener frame args opening, OpenedBy trace group opener frame args opening := by
  obtain ⟨before, opener, args, opening, after, htrace, hnone, hkept⟩ := exists_opening hopen
  exact ⟨opener, _, args, opening, (recorded before opener _ after htrace).2.2 hnone, mem_life_of_split htrace rfl,
    before, after, htrace, rfl, hkept⟩

/-- What finds a call in the books of a group comes after the call was enrolled. -/
theorem mem_after_of_booked (recorded : Recorded trace)
    (htrace : trace = before ++ (task, .acted (.enroll group args) enrolment) :: after) {earlier later : Trace}
    {entry : TaskId × Act} (hlater : trace = earlier ++ entry :: later) {call : Enrolled}
    (hcall : call ∈ booked other earlier) (hslot : call.slot = enrolment.slot) : other = group ∧ entry ∈ after := by
  obtain ⟨seen, running, twin, between, rfl, htwin, -⟩ := mem_booked_iff.1 hcall
  rw [List.append_assoc, List.cons_append] at hlater
  obtain ⟨rfl, hentry⟩ := recorded.enrolled_once htrace hlater (hslot.symm.trans htwin.symm)
  rw [htrace, List.append_cancel_left_eq] at hlater
  obtain ⟨-, rfl⟩ := List.cons.inj hlater
  cases hentry
  exact ⟨rfl, by simp⟩

/-! ## The service of a call has completed -/

namespace Setting

variable (setting : Setting machine underlying) (fresh : Fresh underlying first)
  (runs : Runs machine first trace system)
include setting fresh runs

/-- The service of a call enrolls it before it does anything else by itself. -/
theorem mem_after_enroll
    (htrace : trace = before ++ (task, .acted (.enroll group args) enrolment) :: after)
    (hactor : (Roll.after (deeds before task)).actor (.acted (.enroll group args) enrolment) = number)
    {action : Action} {reply : action.Reply} (hmem : .acted action reply ∈ life (deeds trace task) number)
    (hother : ∀ group args, action ≠ .enroll group args) : (task, .acted action reply) ∈ after := by
  obtain ⟨kind, window, tag, begun, rest, -, -, hstrides, joining⟩ :=
    setting.service_of_enroll fresh runs (mem_life_of_split htrace hactor)
  have hdeeds : deeds trace task = deeds before task ++ .acted (.enroll group args) enrolment :: deeds after task := by
    rw [htrace, deeds_append]
    simp [deeds]
  obtain ⟨later, hlater⟩ := exists_strides_of_split hdeeds hactor rfl
  have honce : .acted (.enroll group args) enrolment ∉ rest := fun hagain => by
    rcases joining.abandons_or_receives hagain rfl with hact | hact <;> cases hact
  have hbefore : strides (life (deeds before task) number) = [.resumed begun] := by
    rw [hstrides] at hlater
    generalize strides (life (deeds before task) number) = seen at hlater
    rcases seen with _ | ⟨head, _ | ⟨second, seen⟩⟩
    · cases (List.cons.inj hlater).1
    · rw [(List.cons.inj hlater).1]
    · obtain ⟨-, hrest⟩ := List.cons.inj (List.cons.inj hlater).2
      exact absurd (hrest ▸ List.mem_append_right _ List.mem_cons_self) honce
  obtain ⟨earlier, more, hsplit, hplace⟩ := exists_of_life hmem
  rcases order_of_splits (htrace.symm.trans hsplit) with ⟨-, hentry, -⟩ | ⟨mid, -, rfl⟩ | ⟨mid, hearlier, -⟩
  · cases hentry
    exact absurd rfl (hother group args)
  · simp
  · have hacted : .acted action reply ∈ strides (life (deeds before task) number) :=
      mem_strides.2 ⟨mem_life_of_split hearlier hplace, rfl⟩
    simp [hbefore] at hacted

/-- A flush that has collected a call, or whoever else has closed the slot of the call, has closed its batch. -/
theorem closed_of_receives (htrace : trace = before ++ (task, .acted (.enroll group args) enrolment) :: after)
    {reply : Option Outcome} (hreceives : Receives trace enrolment.slot reply) :
    ∃ entry ∈ after, entry.2.removes group = true := by
  have recorded := (setting.books fresh runs).recorded
  -- whoever collects the call closes the batch that it was enrolled in
  have hcollects {flusher : TaskId} {place : Nat} {other : BatchGroup} {calls : List Enrolled} {call : Enrolled}
      (hcollected : .acted (.collect other) calls ∈ life (deeds trace flusher) place) (hcall : call ∈ calls)
      (hslot : call.slot = enrolment.slot) : ∃ entry ∈ after, entry.2.removes group = true := by
    obtain ⟨earlier, later, hlater, -⟩ := exists_of_life hcollected
    obtain rfl : calls = booked other earlier := recorded earlier flusher _ later hlater
    obtain ⟨rfl, hmem⟩ := mem_after_of_booked recorded htrace hlater hcall hslot
    exact ⟨_, hmem, by simp [Act.removes]⟩
  cases reply with
  | some outcome =>
      obtain ⟨flusher, place, other, calls, returned, hreturned, hshare⟩ := setting.share_of_answers fresh runs hreceives
      have hslot := List.mem_map_of_mem (f := Prod.fst) hshare
      rw [map_fst_shares] at hslot
      obtain ⟨call, hcall, hslot⟩ := List.mem_map.1 hslot
      exact hcollects hreturned.collected hcall hslot
  | none =>
      obtain ⟨earlier, running, act, later, hlater, hcloses, -⟩ := hreceives
      cases hcloses with
      | abandon other hcall hslot =>
          obtain ⟨rfl, hmem⟩ := mem_after_of_booked recorded htrace hlater hcall hslot
          exact ⟨_, hmem, by simp [Act.removes]⟩
      | @ends _ place other calls _ _ _ hcollected hcall hslot =>
          have hlast : .acted (.collect other) calls ∈ life (deeds trace running) place := by
            rw [hlater, deeds_append]
            exact mem_life_append _ hcollected
          exact hcollects hlast hcall hslot

/-- When the service of a call has completed, the batch of the call has been closed; unless the service was told that a
flush without a window failed. -/
theorem closed_of_completed
    (htrace : trace = before ++ (task, .acted (.enroll group args) enrolment) :: after)
    (hactor : (Roll.after (deeds before task)).actor (.acted (.enroll group args) enrolment) = number)
    {outcome : Outcome} (hcompleted : .completed outcome ∈ life (deeds trace task) number) :
    (∃ entry ∈ after, entry.2.removes group = true) ∨
      enrolment.opened = true ∧ ∃ error, outcome = .error error ∧
        [.performed (launch group (underlying group.definition) 0), .resumed (.error error)] <:+:
          strides (life (deeds trace task) number) := by
  obtain ⟨kind, window, tag, begun, rest, -, -, hstrides, joining⟩ :=
    setting.service_of_enroll fresh runs (mem_life_of_split htrace hactor)
  have hmem : .completed outcome ∈ strides (life (deeds trace task) number) := mem_strides.2 ⟨hcompleted, rfl⟩
  rw [hstrides] at hmem
  simp only [List.mem_cons, reduceCtorEq, false_or] at hmem
  cases joining with
  | opening hopened hprelude => cases hprelude _ hmem
  | launching hopened cut =>
      simp only [List.mem_cons, reduceCtorEq, false_or] at hmem
      exact absurd hmem (cut.not_mem (by simp))
  | @refused acts hopened error hfailing =>
      simp only [List.mem_cons, reduceCtorEq, false_or] at hmem
      rcases hfailing with cut | ⟨rfl, rfl⟩ | ⟨-, later, rfl, -⟩
      · exact absurd hmem (cut.not_mem (by simp))
      · cases List.mem_singleton.1 hmem
        refine .inr ⟨hopened, error, rfl, [.resumed begun, .acted (.enroll group args) enrolment,
          .acted (.emit (.batchOpened (underlying group.definition).name group.key)) ()], [.completed (.error error)], ?_⟩
        rw [hstrides]
        rfl
      · have habandoned : .acted (.abandon group) () ∈ life (deeds trace task) number :=
          (mem_strides.1 (by simp [hstrides])).1
        exact .inl ⟨_, setting.mem_after_enroll fresh runs htrace hactor habandoned (by simp), by simp [Act.removes]⟩
  | @waiting earlier later hlaunched hwaiting =>
      rcases hwaiting with cut | ⟨reply, more, rfl, -⟩
      · rcases List.mem_append.1 hmem with hearlier | hlater
        · rcases hlaunched with ⟨-, rfl⟩ | ⟨-, value, rfl⟩ <;> simp at hearlier
        · exact absurd hlater (cut.not_mem (by simp))
      · rw [← List.cons_append, ← List.cons_append] at hstrides
        have hreceives := setting.receives_of_strides fresh runs hstrides
          (List.mem_cons_of_mem _ (List.mem_cons_self (a := Act.acted (.enroll group args) enrolment)))
        exact .inl (setting.closed_of_receives fresh runs htrace hreceives)

end Setting

/-! ## Who closes an open batch -/

/-- Where the closing of a batch stands: the service of the call that opened it goes on and has not been told that its
flush was launched, or that flush goes on and has not collected yet, or one of the two was cut off. -/
inductive Tended (descent : Descent) (trace : Trace) (group : BatchGroup) (function : Function) (opener : TaskId)
    (frame : Nat) : Prop
  | opening (hlive : frame ∈ (Roll.after (deeds trace opener)).live)
      (hrunning : ∀ outcome, .completed outcome ∉ life (deeds trace opener) frame)
      (huntold : ∀ window value, ¬ [.performed (launch group function window), .resumed (.ok value)] <:+:
        strides (life (deeds trace opener) frame)) : Tended descent trace group function opener frame
  | flushing {window place : Nat} {flusher : TaskId}
      (hlaunched : LaunchedBy descent trace opener frame (flush group function window) flusher place)
      (hlive : life (deeds trace flusher) place = [] ∨ place ∈ (Roll.after (deeds trace flusher)).live)
      (hrunning : ∀ outcome, .completed outcome ∉ life (deeds trace flusher) place)
      (hwaiting : ∀ calls, .acted (.collect group) calls ∉ life (deeds trace flusher) place) :
      Tended descent trace group function opener frame
  | cutOff (hcut : CutOff trace opener frame) : Tended descent trace group function opener frame
  | flushCutOff {window place : Nat} {flusher : TaskId}
      (hlaunched : LaunchedBy descent trace opener frame (flush group function window) flusher place)
      (hcut : CutOff trace flusher place) : Tended descent trace group function opener frame

namespace Setting

variable (setting : Setting machine underlying) (unintercepted : Unintercepted machine) (fresh : Fresh underlying first)
  (runs : Runs machine first trace system) (lineage : Lineage machine underlying first descent trace system.parked)
include setting unintercepted fresh runs lineage

/-- A flush that was launched for a batch which is still open goes on, unless it was cut off. -/
theorem tended_of_launched (openedBy : OpenedBy trace group opener frame args opening) {window : Nat}
    (hlaunched : LaunchedBy descent trace opener frame (flush group (underlying group.definition) window) flusher place) :
    Tended descent trace group (underlying group.definition) opener frame := by
  have recorded := (setting.books fresh runs).recorded
  by_cases hcut : CutOff trace flusher place
  · exact .flushCutOff hlaunched hcut
  -- the flush would have closed the batch
  have hwaiting : ∀ calls, .acted (.collect group) calls ∉ life (deeds trace flusher) place := by
    intro calls hcollected
    obtain ⟨before, after, htrace, -, hkept⟩ := openedBy.kept
    obtain ⟨seen, later, hsplit, hactor⟩ := exists_of_life hcollected
    obtain ⟨earlier, mid, rfl, -⟩ := setting.opened_before_acted unintercepted fresh runs lineage hlaunched
      openedBy.enrolled hsplit hactor
    rw [List.append_assoc, List.cons_append] at hsplit
    obtain ⟨rfl, -⟩ := recorded.enrolled_once htrace hsplit rfl
    rw [htrace, List.append_cancel_left_eq] at hsplit
    obtain ⟨-, rfl⟩ := List.cons.inj hsplit
    have hfalse := hkept (flusher, .acted (.collect group) calls) (by simp)
    simp [Act.removes] at hfalse
  by_cases hunborn : life (deeds trace flusher) place = []
  · exact .flushing hlaunched (.inl hunborn) (by simp [hunborn]) hwaiting
  · have hpushed := pushed_of_launch unintercepted lineage hlaunched hunborn
    have hrunning : ∀ outcome, .completed outcome ∉ life (deeds trace flusher) place := by
      intro outcome hcompleted
      obtain ⟨calls, hcollected⟩ := (flushing_of_pushed runs hpushed).exists_collected (mem_strides.2 ⟨hcompleted, rfl⟩)
      exact hwaiting calls (mem_strides.1 hcollected).1
    exact .flushing hlaunched (.inr (runs.mem_live hpushed hcut hrunning)) hrunning hwaiting

omit setting fresh in
/-- A service has launched a flush if it was told so, and a flush without a window as soon as it has performed it. -/
theorem launched_of_told {window : Nat} (hcalm : .noticed ∉ deeds trace opener) {path later : List Act}
    (hstrides : strides (life (deeds trace opener) frame) =
      path ++ .performed (launch group (underlying group.definition) window) :: later)
    (htold : window ≠ 0 → ∃ value rest, later = .resumed (.ok value) :: rest) :
    ∃ flusher place,
      LaunchedBy descent trace opener frame (flush group (underlying group.definition) window) flusher place := by
  by_cases hwindow : window = 0
  · subst hwindow
    obtain ⟨before, after, hdeeds, hactor, -⟩ := exists_of_strides hstrides
    rcases lineage.origins.handled opener before _ after hdeeds with ⟨rest, rfl⟩ | ⟨run, rest, -, -, rfl⟩
    · exact absurd (by simp [hdeeds]) hcalm
    · unfold launch at hdeeds hactor
      rw [if_pos rfl, Machine.handleActs_bare unintercepted.execute] at hdeeds
      exact ⟨opener, _, .here hdeeds hactor⟩
  · obtain ⟨value, rest, rfl⟩ := htold hwindow
    unfold launch at hstrides
    rw [if_neg hwindow] at hstrides
    obtain ⟨before, act, answer, after, hdeeds, hactor, -, hanswer, ⟨hnone, -⟩ | ⟨more, hresumed⟩⟩ :=
      runs.fork_told unintercepted.fork hcalm hstrides
    · cases hnone
    · obtain rfl := Act.resumed.inj (List.cons.inj hresumed).1
      cases hanswer with
      | forked =>
        obtain ⟨forked, hlaunched⟩ := launched_of_forked lineage hdeeds hactor
        exact ⟨forked, 1, hlaunched⟩

/-- Every open batch is tended. -/
theorem tended (openedBy : OpenedBy trace group opener frame args opening) :
    Tended descent trace group (underlying group.definition) opener frame := by
  by_cases hcut : CutOff trace opener frame
  · exact .cutOff hcut
  have hcalm : .noticed ∉ deeds trace opener := fun hmem => hcut (.inl hmem)
  obtain ⟨kind, window, tag, begun, rest, hpushed, -, hstrides, joining⟩ :=
    setting.service_of_enroll fresh runs openedBy.enrolled
  have htended (path : List Act) {later : List Act} (hlaunch : strides (life (deeds trace opener) frame) =
      path ++ .performed (launch group (underlying group.definition) window) :: later)
      (htold : window ≠ 0 → ∃ value rest, later = .resumed (.ok value) :: rest) :
      Tended descent trace group (underlying group.definition) opener frame := by
    obtain ⟨flusher, place, hlaunched⟩ := launched_of_told unintercepted runs lineage hcalm hlaunch htold
    exact setting.tended_of_launched unintercepted fresh runs lineage openedBy hlaunched
  have hopening (hunended : ∀ outcome, .completed outcome ∉ rest)
      (huntold : ∀ effect value, ¬ [.performed effect, .resumed (.ok value)] <:+: rest) :
      Tended descent trace group (underlying group.definition) opener frame := by
    have hrunning : ∀ outcome, .completed outcome ∉ life (deeds trace opener) frame := by
      intro outcome hcompleted
      have hmem : .completed outcome ∈ strides (life (deeds trace opener) frame) := mem_strides.2 ⟨hcompleted, rfl⟩
      rw [hstrides] at hmem
      simp only [List.mem_cons, reduceCtorEq, false_or] at hmem
      exact hunended outcome hmem
    refine .opening (runs.mem_live hpushed hcut hrunning) hrunning fun length value hwithin => ?_
    rw [hstrides, List.infix_cons_iff, List.infix_cons_iff] at hwithin
    rcases hwithin with hstart | hstart | hwithin
    · cases (List.cons_prefix_cons.1 hstart).1
    · cases (List.cons_prefix_cons.1 hstart).1
    · exact huntold _ value hwithin
  cases joining with
  | opening _ hprelude =>
      refine hopening (fun outcome hmem => nomatch hprelude _ hmem) fun effect value hwithin => ?_
      cases hprelude _ (hwithin.subset List.mem_cons_self)
  | @launching acts _ cut =>
      by_cases hwindow : window = 0
      · exact htended [_, _, _] hstrides fun hother => absurd hwindow hother
      · refine hopening (fun outcome hmem => ?_) fun effect value hwithin => ?_
        · simp [cut.not_mem] at hmem
        · rcases cut with rfl | rfl <;> simp [List.infix_cons_iff] at hwithin
  | @refused acts _ error hfailing =>
      by_cases hwindow : window = 0
      · exact htended [_, _, _] hstrides fun hother => absurd hwindow hother
      · rcases hfailing with cut | ⟨hnone, -⟩ | ⟨-, later, rfl, -⟩
        · refine hopening (fun outcome hmem => ?_) fun effect value hwithin => ?_
          · simp [cut.not_mem] at hmem
          · rcases cut with rfl | rfl <;> simp [List.infix_cons_iff] at hwithin
        · exact absurd hnone hwindow
        · -- the batch would have been abandoned
          obtain ⟨before, after, htrace, hactor, hkept⟩ := openedBy.kept
          have habandoned : .acted (.abandon group) () ∈ life (deeds trace opener) frame :=
            (mem_strides.1 (by simp [hstrides])).1
          have hfalse := hkept _ (setting.mem_after_enroll fresh runs htrace hactor habandoned (by simp))
          simp [Act.removes] at hfalse
  | waiting hlaunched =>
      rcases hlaunched with ⟨hjoined, -⟩ | ⟨-, value, rfl⟩
      · exact absurd openedBy.opened (by simp [hjoined])
      · exact htended [_, _, _] hstrides fun _ => ⟨value, _, rfl⟩

end Setting

/-- The books of all open batches, and who closes these: the call that opened an open batch has not completed, or else it
was told that a flush without a window failed.  When no plugin handles the launch of a flush, every open batch is tended. -/
theorem tended_of_open (setting : Setting machine underlying) (fresh : Fresh underlying first)
    (runs : Runs machine first trace system) :
    (∀ group, system.host.batches.callsOf group = booked group trace) ∧
    (∀ before task group args enrolment after, trace = before ++ (task, .acted (.enroll group args) enrolment) :: after →
      ((enrolment : Enrolment).opened = true ↔ booked group before = [])) ∧
    (∀ group, booked group trace ≠ [] → ∃ opener frame args opening, OpenedBy trace group opener frame args opening ∧
      ∀ outcome, .completed outcome ∈ life (deeds trace opener) frame → ∃ error, outcome = .error error ∧
        [.performed (launch group (underlying group.definition) 0), .resumed (.error error)] <:+:
          strides (life (deeds trace opener) frame)) ∧
    (Unintercepted machine → ∃ descent, Lineage machine underlying first descent trace system.parked ∧
      ∀ group, booked group trace ≠ [] → ∃ opener frame args opening,
        OpenedBy trace group opener frame args opening ∧
          Tended descent trace group (underlying group.definition) opener frame) := by
  have books := setting.books fresh runs
  refine ⟨books.calls, fun before task group args enrolment after htrace => (books.recorded before task _ after htrace).2,
    fun group hopen => ?_, fun unintercepted => ?_⟩
  · obtain ⟨opener, frame, args, opening, openedBy⟩ := exists_openedBy books.recorded hopen
    refine ⟨opener, frame, args, opening, openedBy, fun outcome hcompleted => ?_⟩
    obtain ⟨before, after, htrace, hactor, hkept⟩ := openedBy.kept
    rcases setting.closed_of_completed fresh runs htrace hactor hcompleted with ⟨entry, hmem, hremoves⟩ | ⟨-, hrefused⟩
    · exact absurd hremoves (by simp [hkept entry hmem])
    · exact hrefused
  · obtain ⟨descent, lineage⟩ := setting.lineage unintercepted fresh runs
    refine ⟨descent, lineage, fun group hopen => ?_⟩
    obtain ⟨opener, frame, args, opening, openedBy⟩ := exists_openedBy books.recorded hopen
    exact ⟨opener, frame, args, opening, openedBy, setting.tended unintercepted fresh runs lineage openedBy⟩

/-! ## A flush without a window that fails -/

/-- A machine on which no computation can be put on the stack of another, and so no flush without a window. -/
def refusing : Machine :=
  batching 0 [(Kind.execute, .ofHandle fun _ _ => ⟨none, .fail .cancelled⟩)] fun args => .ok (.list args)

/-- Two callers that call the batched function one after the other. -/
def joiners : Host :=
  callers [(.blank 0, .perform (callBatched (.int 1)) .done), (.blank 1, .perform (callBatched (.int 2)) .done)]

/-- What becomes of the two callers. -/
def wedging : Trace × System :=
  ({ host := joiners } : System).execute refusing 60

/-- The first call fails and leaves its batch open, which the second call joins. -/
theorem left_open_by_refusal :
    (wedging.2.host.batches.callsOf ⟨0, 0, .str "k"⟩).length = 2 ∧
      ∃ opener frame args opening error,
        OpenedBy wedging.1 ⟨0, 0, .str "k"⟩ opener frame args opening ∧
        .completed (.error error) ∈ life (deeds wedging.1 opener) frame ∧
        [.performed (launch ⟨0, 0, .str "k"⟩ shared 0), .resumed (.error error)] <:+:
          strides (life (deeds wedging.1 opener) frame) := by
  have setting : Setting refusing fun _ => shared :=
    setting_batching (List.forall_mem_singleton.2 fun _ _ _ _ => .inl trivial) fun _ _ => trivial
  have fresh : Fresh (fun _ => shared) joiners := fresh_callers <| List.forall_mem_cons.2
    ⟨fun _ => ⟨trivial, fun _ => trivial⟩, List.forall_mem_singleton.2 fun _ => ⟨trivial, fun _ => trivial⟩⟩
  have runs : Runs refusing joiners wedging.1 wedging.2 := (Runs.start (new_callers _)).execute 60
  have hopens : opensOnly ⟨0⟩ ⟨0⟩ wedging.1 = true := by decide +kernel
  have hquiet : undisturbed wedging ⟨0⟩ = true := by decide +kernel
  have hcalls : (wedging.2.host.batches.callsOf ⟨0, 0, .str "k"⟩).length = 2 := by decide +kernel
  refine ⟨hcalls, ?_⟩
  obtain ⟨hbooks, -, hcompletes, -⟩ := tended_of_open setting fresh runs
  have hopen : booked ⟨0, 0, .str "k"⟩ wedging.1 ≠ [] := by
    intro hnone
    rw [hbooks, hnone] at hcalls
    cases hcalls
  obtain ⟨opener, frame, args, opening, openedBy, hrefused⟩ := hcompletes _ hopen
  obtain ⟨rfl, -⟩ := of_opensOnly hopens openedBy.enrolled openedBy.opened
  obtain ⟨-, hserved⟩ := uninterrupted_of_undisturbed hquiet
  obtain ⟨_, _, _, _, _, hpushed, -⟩ := setting.service_of_enroll fresh runs openedBy.enrolled
  obtain ⟨outcome, hcompleted⟩ := runs.completed_of_rest (hserved frame).rest hpushed
    (runs.not_mem_givenUp (hserved frame).calm frame) (hserved frame).kept
  obtain ⟨error, rfl, hwithin⟩ := hrefused outcome hcompleted
  exact ⟨_, frame, args, opening, error, openedBy, hcompleted, hwithin⟩

end Batch
end EffectMachine
