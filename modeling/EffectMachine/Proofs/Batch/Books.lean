import EffectMachine.Proofs.Batch.Fairness

/-!
# The books of open batches

Which calls stand in the open batch of a group is known from the acts of all processes: those that were enrolled since
the batch was last collected or abandoned, in order.

* `booked` are these calls, and `Act.Agrees` says that an act which enrolls or collects calls was told the truth about
  them.
* `Batch.Setting.books` says that the host keeps its books by the acts.
* `mem_booked_iff`, `exists_opening` and `exists_removal` find the acts that a book entry goes back to or ends with;
  `Recorded.enrolled_once` and `Recorded.removed_once` say that there is only one of each.
-/

namespace EffectMachine

namespace Act

/-- Whether an act closes the batch of a group. -/
def removes (group : BatchGroup) : Act → Bool
  | .acted (.collect other) _ | .acted (.abandon other) _ => other = group
  | _ => false

/-- The call that an act enrolls in the batch of a group, if it does. -/
def joins (group : BatchGroup) : Act → List Enrolled
  | .acted (.enroll other args) enrolment =>
    if other = group then [⟨args, (enrolment : Enrolment).slot⟩] else []
  | _ => []

/-- Whether an act enrolls a call. -/
def enrolls : Act → Bool
  | .acted (.enroll ..) _ => true
  | _ => false

end Act

/-- How many calls some acts enroll. -/
def enrolments (trace : Trace) : Nat :=
  trace.countP fun entry => entry.2.enrolls

/-- The calls of the open batch of a group after some acts. -/
def booked (group : BatchGroup) (trace : Trace) : List Enrolled :=
  trace.foldl (fun calls entry => if entry.2.removes group then [] else calls ++ entry.2.joins group) []

/-- What an act was told about open batches agrees with the acts before. -/
def Act.Agrees (before : Trace) : Act → Prop
  | .acted (.enroll group _) enrolment =>
    (enrolment : Enrolment).slot = ⟨enrolments before⟩ ∧
      ((enrolment : Enrolment).opened = true ↔ booked group before = [])
  | .acted (.collect group) calls => calls = booked group before
  | _ => True

/-- All acts were told the truth about open batches. -/
def Recorded (trace : Trace) : Prop :=
  ∀ before task act after, trace = before ++ (task, act) :: after → act.Agrees before

@[simp] theorem booked_nil (group : BatchGroup) : booked group [] = [] :=
  rfl

theorem booked_concat (group : BatchGroup) (trace : Trace) (task : TaskId) (act : Act) :
    booked group (trace ++ [(task, act)]) =
      if act.removes group then [] else booked group trace ++ act.joins group := by
  simp [booked]

theorem enrolments_append (trace more : Trace) :
    enrolments (trace ++ more) = enrolments trace + enrolments more :=
  List.countP_append

/-- What was recorded of all acts was recorded of the first. -/
theorem Recorded.left {trace more : Trace} (recorded : Recorded (trace ++ more)) : Recorded trace := by
  rintro before task act after rfl
  exact recorded before task act (after ++ more) (by simp)

/-- One more act is recorded if it was told the truth. -/
theorem Recorded.concat {trace : Trace} {task : TaskId} {act : Act} (recorded : Recorded trace)
    (hagrees : act.Agrees trace) : Recorded (trace ++ [(task, act)]) := by
  intro before other last after hacts
  rcases split_of_append hacts with ⟨rest, htrace, -⟩ | ⟨rest, rfl, hrest⟩
  · exact recorded before other last rest htrace
  · cases rest with
    | nil =>
        obtain ⟨hentry, -⟩ := List.cons.inj hrest
        cases hentry
        rwa [List.append_nil]
    | cons head rest => simp at hrest

/-! ## The books of the host -/

/-- The books of two hosts list the same batches and as many slots. -/
structure Batches.Lists (batches other : Batches) : Prop where
  groups : batches.groups = other.groups
  slots : batches.slots.length = other.slots.length

namespace Host

/-- Settling a slot changes no list of calls. -/
theorem lists_settle (host : Host) (slot : Slot) (state : SlotState) :
    (host.settle slot state).batches.Lists host.batches := by
  have hsettle : (host.batches.settle slot state).Lists host.batches := by
    unfold Batches.settle
    split
    · exact ⟨rfl, List.length_set⟩
    · exact ⟨rfl, rfl⟩
  unfold Host.settle
  split
  · exact hsettle
  · exact ⟨rfl, rfl⟩

theorem lists_close (host : Host) (slots : List Slot) : (host.close slots).batches.Lists host.batches := by
  unfold Host.close
  induction slots generalizing host with
  | nil => exact ⟨rfl, rfl⟩
  | cons slot slots ih =>
      have hfirst := host.lists_settle slot .closed
      have hrest := ih (host.settle slot .closed)
      exact ⟨hrest.groups.trans hfirst.groups, hrest.slots.trans hfirst.slots⟩

/-- An action that takes no part in batches leaves them alone. -/
theorem batches_of_react {host later : Host} {action : Action} {reply : action.Reply}
    (hbatch : action.isBatch = false)
    (hreact : host.react action = .reply later reply ∨ host.react action = .giveWay later reply) :
    later.batches = host.batches := by
  cases action with
  | enroll | collect | abandon | answer | receive => cases hbatch
  | join tasks | firstFailure tasks =>
      simp only [react, look] at hreact
      split at hreact
      · rcases hreact with hreact | hreact
        · cases hreact
          exact host.batches_collectAll _
        · cases hreact
      · rcases hreact with hreact | hreact <;> cases hreact
  | arm delay =>
      simp only [react] at hreact
      split at hreact
      all_goals
        rcases hreact with hreact | hreact
        · cases hreact
          rfl
        · cases hreact
  | expired timers =>
      simp only [react] at hreact
      split at hreact
      · rcases hreact with hreact | hreact
        · cases hreact
          rfl
        · cases hreact
      · rcases hreact with hreact | hreact <;> cases hreact
  | yieldTurn =>
      rcases hreact with hreact | hreact
      · cases hreact
      · cases hreact
        rfl
  | _ =>
      rcases hreact with hreact | hreact
      · cases hreact
        rfl
      · cases hreact

end Host

/-- The calls of a batch are as listed. -/
theorem Batches.Lists.callsOf {batches other : Batches} (hlists : batches.Lists other) (group : BatchGroup) :
    batches.callsOf group = other.callsOf group := by
  unfold Batches.callsOf
  rw [hlists.groups]

namespace Batches

variable {batches : Batches} {group other : BatchGroup}

/-- Other groups are no matter of a batch that is closed. -/
theorem callsOf_remove_of_ne (hother : group ≠ other) : (batches.remove group).callsOf other = batches.callsOf other := by
  have hfound : ((batches.groups.filter fun entry => entry.1 ≠ group).find? fun entry => entry.1 = other) =
      batches.groups.find? fun entry => entry.1 = other := by
    rw [List.find?_filter]
    congr 1
    funext entry
    by_cases hentry : entry.1 = other
    · simp [hentry, hother.symm]
    · simp [hentry]
  unfold Batches.callsOf Batches.remove
  rw [hfound]

/-- Other groups are no matter of a call that is enrolled. -/
theorem callsOf_enroll_of_ne (args : List Value) (hother : group ≠ other) :
    (batches.enroll group args).2.callsOf other = batches.callsOf other := by
  refine Eq.trans ?_ (callsOf_remove_of_ne hother)
  simp [enroll, callsOf, List.find?_append, hother]

end Batches

/-- The host keeps its books by these acts. -/
structure Books (trace : Trace) (batches : Batches) : Prop where
  calls : ∀ group, batches.callsOf group = booked group trace
  slots : batches.slots.length = enrolments trace
  recorded : Recorded trace

namespace Books

variable {trace : Trace} {task : TaskId} {act : Act} {batches later : Batches} {run next : Run}

/-- An act that neither opens nor closes anything leaves the books as they are. -/
theorem quiet (books : Books trace batches) (hlists : later.Lists batches)
    (hremoves : ∀ group, act.removes group = false) (hjoins : ∀ group, act.joins group = [])
    (henrolls : act.enrolls = false) (hagrees : act.Agrees trace) : Books (trace ++ [(task, act)]) later where
  calls := fun group => by
    rw [hlists.callsOf, books.calls, booked_concat, hremoves, hjoins]
    simp
  slots := by
    rw [hlists.slots, books.slots, enrolments_append]
    simp [enrolments, henrolls]
  recorded := books.recorded.concat hagrees

/-- A batch that is closed is taken out of the books. -/
theorem remove (books : Books trace batches) {group : BatchGroup} (hlists : later.Lists (batches.remove group))
    (hremoves : ∀ other, act.removes other = decide (group = other)) (hjoins : ∀ other, act.joins other = [])
    (henrolls : act.enrolls = false) (hagrees : act.Agrees trace) : Books (trace ++ [(task, act)]) later where
  calls := fun other => by
    rw [hlists.callsOf, booked_concat, hremoves, hjoins]
    by_cases hsame : group = other
    · simp [hsame]
    · simp [hsame, Batches.callsOf_remove_of_ne hsame, books.calls]
  slots := by
    rw [hlists.slots, enrolments_append]
    simp [enrolments, henrolls, Batches.remove, books.slots]
  recorded := books.recorded.concat hagrees

/-- A call that is enrolled is put into the books. -/
theorem enroll (books : Books trace batches) (group : BatchGroup) (args : List Value) :
    Books (trace ++ [(task, .acted (.enroll group args) (batches.enroll group args).1)])
      (batches.enroll group args).2 where
  calls := fun other => by
    rw [booked_concat]
    by_cases hsame : group = other
    · subst hsame
      simp [Act.removes, Act.joins, books.calls]
    · simp [Act.removes, Act.joins, hsame, Batches.callsOf_enroll_of_ne args hsame, books.calls]
  slots := by
    rw [enrolments_append, ← books.slots]
    simp [enrolments, Act.enrolls, Batches.enroll]
  recorded := by
    refine books.recorded.concat ⟨?_, ?_⟩
    · rw [← books.slots]
      rfl
    · rw [← books.calls]
      exact batches.opened_enroll_iff group args

/-- The books go on with every act. -/
theorem does (books : Books trace run.host.batches) (hdoes : run.Does act next) :
    Books (trace ++ [(task, act)]) next.host.batches := by
  have hsame {later : Batches} (hlater : later = run.host.batches) : later.Lists run.host.batches :=
    ⟨by rw [hlater], by rw [hlater]⟩
  cases hdoes with
  | drop | complete | giveUp | vacate =>
      exact books.quiet (run.host.lists_close _) (fun _ => rfl) (fun _ => rfl) rfl trivial
  | answer value =>
      refine books.quiet (hsame ?_) (fun _ => rfl) (fun _ => rfl) rfl trivial
      unfold Run.answerTop
      split <;> rfl
  | fail error =>
      refine books.quiet (hsame ?_) (fun _ => rfl) (fun _ => rfl) rfl trivial
      unfold Run.failTop
      split <;> rfl
  | fork effect hscheduled =>
      refine books.quiet (hsame ?_) (fun _ => rfl) (fun _ => rfl) rfl trivial
      unfold Run.answerTop
      split <;> rfl
  | wait action resume host occasions hrunning hreact =>
      exact books.quiet (hsame (Host.batches_of_wait hreact)) (fun _ => rfl) (fun _ => rfl) rfl trivial
  | act action resume host reply hrunning hreact =>
      have hquiet (hbatch : action.isBatch = false) :
          (∀ group, Act.removes group (.acted action reply) = false) ∧
            (∀ group, Act.joins group (.acted action reply) = []) ∧
            Act.enrolls (.acted action reply) = false ∧ Act.Agrees trace (.acted action reply) := by
        cases action with
        | enroll | collect | abandon | answer | receive => cases hbatch
        | _ => exact ⟨fun _ => rfl, fun _ => rfl, rfl, trivial⟩
      by_cases hbatch : action.isBatch = false
      · obtain ⟨hremoves, hjoins, henrolls, hagrees⟩ := hquiet hbatch
        exact books.quiet (hsame (Host.batches_of_react hbatch hreact)) hremoves hjoins henrolls hagrees
      · cases action with
        | enroll group args =>
            rcases hreact with hreact | hreact
            · cases hreact
              exact books.enroll group args
            · cases hreact
        | collect group =>
            rcases hreact with hreact | hreact
            · cases hreact
              exact books.remove ⟨rfl, rfl⟩ (fun _ => rfl) (fun _ => rfl) rfl (books.calls group)
            · cases hreact
        | abandon group =>
            rcases hreact with hreact | hreact
            · cases hreact
              have hclosed := Host.lists_close { run.host with batches := run.host.batches.remove group }
                ((run.host.batches.callsOf group).map Enrolled.slot)
              exact books.remove hclosed (fun _ => rfl) (fun _ => rfl) rfl trivial
            · cases hreact
        | answer slot outcome =>
            rcases hreact with hreact | hreact
            · cases hreact
              exact books.quiet (run.host.lists_settle slot _) (fun _ => rfl) (fun _ => rfl) rfl trivial
            · cases hreact
        | receive slot =>
            refine books.quiet (hsame ?_) (fun _ => rfl) (fun _ => rfl) rfl trivial
            simp only [Host.react] at hreact
            split at hreact
            all_goals rcases hreact with hreact | hreact <;> cases hreact <;> rfl
        | _ => exact absurd rfl hbatch
  | _ => exact books.quiet ⟨rfl, rfl⟩ (fun _ => rfl) (fun _ => rfl) rfl trivial

end Books

namespace Batch.Setting

variable {machine : Machine} {underlying : Nat → Function} {first : Host} {trace : Trace} {system : System}

/-- Clients take no part in batches by themselves. -/
theorem isBatch_of_client (setting : Setting machine underlying) (fresh : Fresh underlying first)
    (runs : Runs machine first trace system) {task : TaskId} {context : Context} {action : Action}
    {resume : action.Reply → Body}
    (hcurrent : system.current = some (task, .client (.evaluate context (.act action resume)))) :
    action.isBatch = false := by
  have hactivity := System.activity?_current runs.sound hcurrent
  rw [System.activity?_eq_getElem?] at hactivity
  have hpassed : (∀ group, (fun _ : BatchGroup => True) group) ∨ Unintercepted machine := .inl fun _ => trivial
  have hfair := (setting.fair hpassed fresh runs).2 _ (List.mem_of_getElem? hactivity)
  exact hfair.1

/-- The host keeps its books by the acts of all processes. -/
theorem books (setting : Setting machine underlying) (fresh : Fresh underlying first)
    (runs : Runs machine first trace system) : Books trace system.host.batches := by
  have hnothing : Invariant fun _ _ => True :=
    ⟨fun _ _ _ => trivial, fun _ _ _ _ => trivial, fun _ _ => trivial, fun _ _ => trivial⟩
  refine Runs.books hnothing runs ?_ (fun _ hdoes books => books.does hdoes) ?_
  · rw [fresh.batches]
    exact ⟨fun _ => rfl, rfl, fun before task act after hacts => by simp at hacts⟩
  · intro trace system task context action resume reply later runs hcurrent hreact
    exact Host.batches_of_react (setting.isBatch_of_client fresh runs hcurrent) hreact

end Batch.Setting

/-! ## What stands behind an entry -/

section Entries

variable {trace before after : Trace} {group : BatchGroup}

/-- A call stands in the books from when it was enrolled until its batch is closed. -/
theorem mem_booked_iff {call : Enrolled} :
    call ∈ booked group trace ↔ ∃ before task enrolment after,
      trace = before ++ (task, .acted (.enroll group call.args) enrolment) :: after ∧
        (enrolment : Enrolment).slot = call.slot ∧ ∀ entry ∈ after, entry.2.removes group = false := by
  induction trace using List.reverseRecOn with
  | nil => simp
  | append_singleton trace entry ih =>
      obtain ⟨running, act⟩ := entry
      rw [booked_concat]
      constructor
      · intro hmem
        cases hremoves : act.removes group with
        | true => simp [hremoves] at hmem
        | false =>
            simp only [hremoves, Bool.false_eq_true, if_false] at hmem
            rcases List.mem_append.1 hmem with hearlier | hjoins
            · obtain ⟨before, task, enrolment, after, rfl, hslot, hkept⟩ := ih.1 hearlier
              refine ⟨before, task, enrolment, after ++ [(running, act)], by simp, hslot, ?_⟩
              exact List.forall_mem_append.2 ⟨hkept, List.forall_mem_singleton.2 hremoves⟩
            · unfold Act.joins at hjoins
              split at hjoins
              · split at hjoins
                · rename_i other args enrolment hsame
                  cases List.mem_singleton.1 hjoins
                  subst hsame
                  exact ⟨trace, running, enrolment, [], rfl, rfl, List.forall_mem_nil _⟩
                · cases hjoins
              · cases hjoins
      · rintro ⟨before, task, enrolment, after, hsplit, hslot, hkept⟩
        rcases split_of_append hsplit with ⟨rest, hearlier, rfl⟩ | ⟨rest, rfl, hrest⟩
        · obtain ⟨hkept, hlast⟩ := List.forall_mem_append.1 hkept
          rw [List.forall_mem_singleton.1 hlast]
          refine List.mem_append_left _ (ih.2 ⟨before, task, enrolment, rest, hearlier, hslot, hkept⟩)
        · cases rest with
          | nil =>
              obtain ⟨hentry, rfl⟩ := List.cons.inj hrest
              cases hentry
              simp [Act.removes, Act.joins, hslot]
          | cons head rest => simp at hrest

/-- While a batch is open, calls join it one behind the other. -/
theorem booked_append {more : Trace} (hkept : ∀ entry ∈ more, entry.2.removes group = false) :
    booked group (trace ++ more) = booked group trace ++ more.flatMap fun entry => entry.2.joins group := by
  induction more using List.reverseRecOn with
  | nil => simp
  | append_singleton more entry ih =>
      obtain ⟨hearlier, hlast⟩ := List.forall_mem_append.1 hkept
      rw [← List.append_assoc, booked_concat, List.forall_mem_singleton.1 hlast, ih hearlier]
      simp

/-- A batch that is open was opened by a call, and was not closed since. -/
theorem exists_opening (hopen : booked group trace ≠ []) :
    ∃ before task args enrolment after,
      trace = before ++ (task, .acted (.enroll group args) enrolment) :: after ∧ booked group before = [] ∧
        ∀ entry ∈ after, entry.2.removes group = false := by
  induction trace using List.reverseRecOn with
  | nil => exact absurd rfl hopen
  | append_singleton trace entry ih =>
      obtain ⟨running, act⟩ := entry
      rw [booked_concat] at hopen
      cases hremoves : act.removes group with
      | true => simp [hremoves] at hopen
      | false =>
          simp only [hremoves, Bool.false_eq_true, if_false] at hopen
          by_cases hnone : booked group trace = []
          · rw [hnone, List.nil_append] at hopen
            unfold Act.joins at hopen
            split at hopen
            · split at hopen
              · rename_i other args enrolment hsame
                subst hsame
                exact ⟨trace, running, args, enrolment, [], rfl, hnone, List.forall_mem_nil _⟩
              · exact absurd rfl hopen
            · exact absurd rfl hopen
          · obtain ⟨before, task, args, enrolment, after, rfl, hopening, hkept⟩ := ih hnone
            refine ⟨before, task, args, enrolment, after ++ [(running, act)], by simp, hopening, ?_⟩
            exact List.forall_mem_append.2 ⟨hkept, List.forall_mem_singleton.2 hremoves⟩

/-- A batch that is ever closed is closed a first time. -/
theorem exists_removal {entry : TaskId × Act} (hmem : entry ∈ trace) (hremoves : entry.2.removes group = true) :
    ∃ before task act after, trace = before ++ (task, act) :: after ∧ act.removes group = true ∧
      ∀ entry ∈ before, entry.2.removes group = false := by
  cases hfound : trace.find? fun entry => entry.2.removes group with
  | none => exact absurd hremoves (List.find?_eq_none.1 hfound entry hmem)
  | some found =>
      obtain ⟨hfirst, before, after, htrace, hbefore⟩ := List.find?_eq_some_iff_append.1 hfound
      exact ⟨before, found.1, found.2, after, htrace, hfirst, by simpa using hbefore⟩

/-- The slots of all calls in the books were given out. -/
theorem Recorded.lt_enrolments (recorded : Recorded trace) :
    ∀ call ∈ booked group trace, call.slot.index < enrolments trace := by
  intro call hmem
  obtain ⟨before, task, enrolment, after, rfl, hslot, -⟩ := mem_booked_iff.1 hmem
  obtain ⟨hindex, -⟩ := recorded before task _ after rfl
  rw [← hslot, hindex, enrolments_append]
  simp [enrolments, Act.enrolls]

/-- No two calls of a batch have the same slot. -/
theorem Recorded.nodup_booked (recorded : Recorded trace) : ((booked group trace).map Enrolled.slot).Nodup := by
  induction trace using List.reverseRecOn with
  | nil => exact List.nodup_nil
  | append_singleton trace entry ih =>
      obtain ⟨running, act⟩ := entry
      have hearlier := recorded.left
      rw [booked_concat]
      split
      · exact List.nodup_nil
      · unfold Act.joins
        split
        · split
          · rename_i other args enrolment hsame
            obtain ⟨hslot, -⟩ := recorded trace running _ [] rfl
            rw [List.map_append, List.nodup_append]
            refine ⟨ih hearlier, by simp, ?_⟩
            intro slot hmem last hlast hequal
            obtain ⟨call, hcall, rfl⟩ := List.mem_map.1 hmem
            have hless := hearlier.lt_enrolments call hcall
            rw [hequal, List.mem_singleton.1 hlast] at hless
            simp [hslot] at hless
          · simpa using ih hearlier
        · simpa using ih hearlier

/-- A slot is given to one call only. -/
theorem Recorded.enrolled_once (recorded : Recorded trace) {other : BatchGroup} {others later : Trace}
    {task running : TaskId} {args more : List Value} {enrolment second : Enrolment}
    (hfirst : trace = before ++ (task, .acted (.enroll group args) enrolment) :: after)
    (hsecond : trace = others ++ (running, .acted (.enroll other more) second) :: later)
    (hslot : enrolment.slot = second.slot) :
    before = others ∧ (task, Act.acted (.enroll group args) enrolment) =
      (running, .acted (.enroll other more) second) := by
  obtain ⟨hown, -⟩ := recorded before task _ after hfirst
  obtain ⟨hother, -⟩ := recorded others running _ later hsecond
  have hcount : enrolments before = enrolments others := by
    rw [hown, hother] at hslot
    exact Slot.mk.inj hslot
  rcases order_of_splits (hfirst.symm.trans hsecond) with ⟨hsame, hentry, -⟩ | ⟨mid, rfl, -⟩ | ⟨mid, rfl, -⟩
  · exact ⟨hsame, hentry⟩
  · rw [enrolments_append] at hcount
    simp [enrolments, Act.enrolls] at hcount
  · rw [enrolments_append] at hcount
    simp [enrolments, Act.enrolls] at hcount

/-- A call leaves the books once. -/
theorem Recorded.removed_once (recorded : Recorded trace) {other : BatchGroup} {others later : Trace}
    {task running : TaskId} {act another : Act} {call twin : Enrolled}
    (hfirst : trace = before ++ (task, act) :: after) (hsecond : trace = others ++ (running, another) :: later)
    (hremoves : act.removes group = true) (hagain : another.removes other = true)
    (hcall : call ∈ booked group before) (htwin : twin ∈ booked other others) (hslot : call.slot = twin.slot) :
    before = others ∧ group = other ∧ (task, act) = (running, another) := by
  obtain ⟨early, caller, enrolment, mid, hbefore, hown, hkept⟩ := mem_booked_iff.1 hcall
  obtain ⟨first, twinCaller, second, middle, hothers, hsecondSlot, hotherKept⟩ := mem_booked_iff.1 htwin
  have henrolled : trace = early ++ (caller, .acted (.enroll group call.args) enrolment) ::
      (mid ++ (task, act) :: after) := by
    rw [hfirst, hbefore]
    simp
  have hsame : trace = first ++ (twinCaller, .acted (.enroll other twin.args) second) ::
      (middle ++ (running, another) :: later) := by
    rw [hsecond, hothers]
    simp
  obtain ⟨rfl, hentry⟩ := recorded.enrolled_once henrolled hsame (hown.trans (hslot.trans hsecondSlot.symm))
  obtain ⟨rfl, hacted⟩ := Prod.mk.inj hentry
  have hgroup : group = other := by
    injection hacted with haction
    injection haction
  subst hgroup
  -- between a call and the act by which it leaves nothing closes the batch
  have hrest := List.append_cancel_left (henrolled.symm.trans hsame)
  rcases order_of_splits (List.cons.inj hrest).2 with ⟨hmid, hremoval, -⟩ | ⟨between, rfl, -⟩ | ⟨between, rfl, -⟩
  · refine ⟨?_, rfl, hremoval⟩
    rw [hbefore, hothers, hentry, hmid]
  · have hclosed := hotherKept (task, act) (by simp)
    rw [hremoves] at hclosed
    cases hclosed
  · have hclosed := hkept (running, another) (by simp)
    rw [hagain] at hclosed
    cases hclosed

/-- A call is collected once. -/
theorem Recorded.collected_once (recorded : Recorded trace) {other : BatchGroup} {others later : Trace}
    {task running : TaskId} {calls more : List Enrolled} {call twin : Enrolled}
    (hfirst : trace = before ++ (task, .acted (.collect group) calls) :: after)
    (hsecond : trace = others ++ (running, .acted (.collect other) more) :: later)
    (hcall : call ∈ calls) (htwin : twin ∈ more) (hslot : call.slot = twin.slot) :
    before = others ∧ (task, Act.acted (.collect group) calls) = (running, .acted (.collect other) more) := by
  have hcalls : calls = booked group before := recorded before task _ after hfirst
  have hmore : more = booked other others := recorded others running _ later hsecond
  obtain ⟨hbefore, -, hentry⟩ := recorded.removed_once hfirst hsecond (by simp [Act.removes]) (by simp [Act.removes])
    (hcalls ▸ hcall) (hmore ▸ htwin) hslot
  exact ⟨hbefore, hentry⟩

end Entries

end EffectMachine
