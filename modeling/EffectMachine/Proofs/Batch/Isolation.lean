import EffectMachine.Proofs.Batch.Collection
import EffectMachine.Proofs.Batch.Contexts

/-!
# Callers do not disturb each other

What becomes of one caller of a batch is no matter of the others.  The only stack that all callers depend on, besides
their own, is that of the flush of their batch.

* `Batch.exists_openedFor` finds the call that opened the batch of another call.
* `Batch.delivered_to_each` says that a call gets its share of what the function returned to the flush which collected
  it, or which was launched for its batch, if neither its own service nor that flush is interrupted.
-/

namespace EffectMachine
namespace Batch

variable {machine : Machine} {underlying : Nat → Function} {first : Host} {trace : Trace} {system : System}
variable {descent : Descent} {task : TaskId} {number : Nat} {group : BatchGroup}

/-- The call that opened the batch of another call: it is served in frame `frame` of `opener`. -/
structure OpenedFor (trace : Trace) (task : TaskId) (group : BatchGroup) (args : List Value) (enrolment : Enrolment)
    (opener : TaskId) (frame : Nat) (more : List Value) (opening : Enrolment) : Prop where
  opened : opening.opened = true
  enrolled : .acted (.enroll group more) opening ∈ life (deeds trace opener) frame
  /-- The batch was not closed until the other call was enrolled in it. -/
  kept : ∃ before after earlier mid, trace = before ++ (task, .acted (.enroll group args) enrolment) :: after ∧
    before ++ [(task, .acted (.enroll group args) enrolment)] =
      earlier ++ (opener, .acted (.enroll group more) opening) :: mid ∧
    (Roll.after (deeds earlier opener)).actor (.acted (.enroll group more) opening) = frame ∧
    ∀ entry ∈ mid, entry.2.removes group = false

/-- Every call that is enrolled takes part in a batch that some call has opened. -/
theorem exists_openedFor (recorded : Recorded trace) {args : List Value} {enrolment : Enrolment}
    (henrolled : .acted (.enroll group args) enrolment ∈ life (deeds trace task) number) :
    ∃ opener frame more opening, OpenedFor trace task group args enrolment opener frame more opening ∧
      (enrolment.opened = true → opener = task ∧ frame = number) := by
  obtain ⟨before, after, htrace, hactor⟩ := exists_of_life henrolled
  obtain ⟨earlier, opener, more, opening, mid, hbatch, hopened, hkept⟩ := exists_batch recorded htrace
  have hopening : trace = earlier ++ (opener, .acted (.enroll group more) opening) :: (mid ++ after) := by
    rw [htrace, List.append_cons, hbatch]
    simp
  refine ⟨opener, _, more, opening, ⟨hopened, mem_life_of_split hopening rfl,
    before, after, earlier, mid, htrace, hbatch, rfl, hkept⟩, fun hown => ?_⟩
  -- a call that opens a batch itself finds none open
  rcases List.eq_nil_or_concat mid with rfl | ⟨between, last, rfl⟩
  · obtain ⟨rfl, hlast⟩ := List.append_inj' hbatch rfl
    cases hlast
    exact ⟨rfl, hactor⟩
  · have hsplit : before ++ [(task, .acted (.enroll group args) enrolment)] =
        (earlier ++ (opener, .acted (.enroll group more) opening) :: between) ++ [last] := by simpa using hbatch
    obtain ⟨rfl, -⟩ := List.append_inj' hsplit rfl
    have hempty := (recorded _ task _ after htrace).2.1 hown
    have hbooked : (⟨more, opening.slot⟩ : Enrolled) ∈ booked group
        (earlier ++ (opener, Act.acted (.enroll group more) opening) :: between) :=
      mem_booked_iff.2 ⟨earlier, opener, opening, between, rfl, rfl, fun entry hmem => hkept entry (by simp [hmem])⟩
    rw [hempty] at hbooked
    cases hbooked

/-- A flush answers the call of frame `number` of `task`: it has collected the call, and the call completes with its share
of what the function returned to the flush. -/
structure AnsweredBy (trace : Trace) (task : TaskId) (number : Nat) (group : BatchGroup) (function : Function)
    (call : Enrolled) (flusher : TaskId) (place : Nat) (calls : List Enrolled) (returned outcome : Outcome) : Prop where
  collected : call ∈ calls
  returns : Returned (life (deeds trace flusher) place) group function calls returned
  completed : .completed outcome ∈ life (deeds trace task) number
  share : ShareOf function calls call returned outcome

/-- Calls of batches are answered whatever becomes of other calls. -/
structure DeliversToEach (machine : Machine) (underlying : Nat → Function) (first : Host) (trace : Trace)
    (system : System) : Prop where
  /-- A call gets its share of what the function returned to the flush that collected it, if neither its own service nor
  this flush is interrupted; unless it was itself to launch the flush and was told that this failed. -/
  collected : ∀ task number group args enrolment flusher place calls,
    .acted (.enroll group args) enrolment ∈ life (deeds trace task) number → Uninterrupted trace system task number →
    .acted (.collect group) calls ∈ life (deeds trace flusher) place → Uninterrupted trace system flusher place →
    ⟨args, enrolment.slot⟩ ∈ (calls : List Enrolled) →
    Delivered trace task number group (underlying group.definition) ⟨args, enrolment.slot⟩ enrolment.opened flusher place calls
  /-- When no plugin handles the launch of a flush, the flush of a call is the one which was launched by the call that
  opened the batch: if it is not interrupted, it answers the call. -/
  launched : Unintercepted machine → ∃ descent, Lineage machine underlying first descent trace system.parked ∧
    ∀ task number group args enrolment, .acted (.enroll group args) enrolment ∈ life (deeds trace task) number →
      Uninterrupted trace system task number →
      ∃ opener frame more opening, OpenedFor trace task group args enrolment opener frame more opening ∧
        ∀ window flusher place,
          LaunchedBy descent trace opener frame (flush group (underlying group.definition) window) flusher place →
          life (deeds trace flusher) place ≠ [] → Uninterrupted trace system flusher place →
          (enrolment.opened = true → .dropped ∉ deeds trace flusher) →
          ∃ calls returned outcome, AnsweredBy trace task number group (underlying group.definition)
            ⟨args, enrolment.slot⟩ flusher place calls returned outcome

/-- Every call whose own service and whose flush are not interrupted gets its share of what the function returned to that
flush, whatever becomes of the other calls, the one that opened the batch included. -/
theorem delivered_to_each (setting : Setting machine underlying) (fresh : Fresh underlying first)
    (runs : Runs machine first trace system) : DeliversToEach machine underlying first trace system where
  collected := fun _ _ _ _ _ _ _ _ henrolled served hcollected uninterrupted hcall =>
    setting.delivered fresh runs henrolled served hcollected uninterrupted hcall rfl
  launched := fun unintercepted => by
    obtain ⟨descent, lineage⟩ := setting.lineage unintercepted fresh runs
    refine ⟨descent, lineage, fun task number group args enrolment henrolled served => ?_⟩
    obtain ⟨opener, frame, more, opening, openedFor, hself⟩ :=
      exists_openedFor (setting.books fresh runs).recorded henrolled
    refine ⟨opener, frame, more, opening, openedFor, fun window flusher place hlaunched hbegun uninterrupted hkept => ?_⟩
    obtain ⟨before, after, earlier, mid, htrace, hbatch, hframe, hopen⟩ := openedFor.kept
    obtain ⟨(calls : List Enrolled), hcollected⟩ := exists_collected runs
      (Setting.pushed_of_launch unintercepted lineage hlaunched hbegun) uninterrupted
    have hcall : ⟨args, enrolment.slot⟩ ∈ calls := setting.mem_of_collect unintercepted fresh runs lineage hlaunched
      openedFor.opened htrace hbatch hframe hopen hcollected
    cases setting.delivered fresh runs henrolled served hcollected uninterrupted hcall rfl with
    | shared hreturned hcompleted hshare => exact ⟨calls, _, _, hcall, hreturned, hcompleted, hshare⟩
    | @refused _ error length _ hown _ htold =>
        -- the flush was launched, so the call that launched it was not told that it could not be
        obtain ⟨rfl, rfl⟩ := hself hown
        exact absurd htold (setting.not_told_of_launch unintercepted fresh runs hlaunched ⟨calls, hcollected⟩
          uninterrupted (hkept hown))

/-! ## The call that opened the batch is canceled -/

/-- Gives effects tasks of their own. -/
def forkAll (effects : List Effect) : Body :=
  effects.foldr (fun effect rest => .perform (.fork effect) fun _ => rest) (.ok .null)

/-- A machine whose batched function returns the arguments of all its calls. -/
def echoing (window : Nat) : Machine :=
  batching window [] fun args => .ok (.list args)

/-- A client that has three calls made in tasks of their own, and then one of these tasks canceled. -/
def forsakers (task : TaskId) : Host :=
  callers [(.blank 0, forkAll [callBatched (.int 1), callBatched (.int 2), callBatched (.int 3),
    .bare ⟨none, .act (.cancel task) fun _ => .ok .null⟩])]

/-- What becomes of the calls. -/
def forsaking (window : Nat) (task : TaskId) : Trace × System :=
  ({ host := forsakers task } : System).execute (echoing window) 120

theorem setting_echoing (window : Nat) : Setting (echoing window) fun _ => shared :=
  setting_batching (fun _ hmem => nomatch hmem) fun _ _ => trivial

theorem unintercepted_echoing (window : Nat) : Unintercepted (echoing window) :=
  ⟨rfl, rfl⟩

theorem fresh_forsakers (task : TaskId) : Fresh (fun _ => shared) (forsakers task) :=
  fresh_callers <| List.forall_mem_singleton.2 fun _ =>
    ⟨trivial, fun _ => ⟨trivial, fun _ => ⟨trivial, fun _ => ⟨.inl ⟨rfl, fun _ => trivial⟩, fun _ => trivial⟩⟩⟩⟩

theorem runs_forsaking (window : Nat) (task : TaskId) :
    Runs (echoing window) (forsakers task) (forsaking window task).1 (forsaking window task).2 :=
  (Runs.start (new_callers _)).execute 120

/-- Whether only one call opens a batch: that of a task, which gets a slot. -/
def opensOnly (opener : TaskId) (slot : Slot) (trace : Trace) : Bool :=
  trace.all fun
    | (task, .acted (.enroll _ _) enrolment) =>
      !(enrolment : Enrolment).opened || (task = opener && enrolment.slot = slot)
    | _ => true

theorem of_opensOnly {opener : TaskId} {slot : Slot} {trace : Trace} (hopens : opensOnly opener slot trace = true)
    {task : TaskId} {number : Nat} {group : BatchGroup} {args : List Value} {enrolment : Enrolment}
    (henrolled : .acted (.enroll group args) enrolment ∈ life (deeds trace task) number)
    (hopened : enrolment.opened = true) : task = opener ∧ enrolment.slot = slot := by
  obtain ⟨before, after, htrace, -⟩ := exists_of_life henrolled
  have hmem : (task, Act.acted (.enroll group args) enrolment) ∈ trace := by simp [htrace]
  simpa [hopened] using List.all_eq_true.1 hopens _ hmem

/-- If only one call opens a batch, the flush that collects one was launched by the service of this call. -/
theorem Setting.launched_of_opensOnly {machine : Machine} {underlying : Nat → Function} {first : Host} {trace : Trace}
    {system : System} {descent : Descent} (setting : Setting machine underlying) (fresh : Fresh underlying first)
    (runs : Runs machine first trace system) (unintercepted : Unintercepted machine)
    (lineage : Lineage machine underlying first descent trace system.parked) {opener task flusher : TaskId} {slot : Slot}
    (hopens : opensOnly opener slot trace = true) {number place : Nat} {group other : BatchGroup} {calls : List Enrolled}
    (hcollected : .acted (.collect group) calls ∈ life (deeds trace flusher) place) {args : List Value} {enrolment : Enrolment}
    (henrolled : .acted (.enroll other args) enrolment ∈ life (deeds trace task) number) (hopened : enrolment.opened = true) :
    ∃ window, LaunchedBy descent trace task number (flush group (underlying group.definition) window) flusher place := by
  obtain ⟨second, frame, others, another, rest, window, hopening, hagain, -, hlaunched⟩ :=
    setting.opening_of_collect fresh runs unintercepted lineage hcollected
  obtain ⟨rfl, hslot⟩ := of_opensOnly hopens henrolled hopened
  obtain ⟨rfl, hsame⟩ := of_opensOnly hopens hopening hagain
  obtain ⟨before, after, htrace, hactor⟩ := exists_of_life henrolled
  obtain ⟨earlier, later, htwice, hplace⟩ := exists_of_life hopening
  obtain ⟨rfl, hentry⟩ := (setting.books fresh runs).recorded.enrolled_once htrace htwice (hslot.trans hsame.symm)
  cases hentry
  obtain rfl : frame = number := hplace.symm.trans hactor
  exact ⟨window, hlaunched⟩

/-- Whether a computation enrolled a call in a batch of a group. -/
def enrolls (group : BatchGroup) (acts : List Act) : Bool :=
  acts.any fun
    | .acted (.enroll other _) _ => other = group
    | _ => false

theorem enrolled_of_enrolls {group : BatchGroup} {acts : List Act} (henrolls : enrolls group acts = true) :
    ∃ args enrolment, .acted (.enroll group args) enrolment ∈ acts := by
  obtain ⟨act, hmem, hact⟩ := List.any_eq_true.1 henrolls
  split at hact
  · rw [of_decide_eq_true hact] at hmem
    exact ⟨_, _, hmem⟩
  · cases hact

/-- Whether a computation collected calls of a group. -/
def collects (group : BatchGroup) (acts : List Act) : Bool :=
  acts.any fun
    | .acted (.collect other) _ => other = group
    | _ => false

theorem collected_of_collects {group : BatchGroup} {acts : List Act} (hcollects : collects group acts = true) :
    ∃ calls, .acted (.collect group) calls ∈ acts := by
  obtain ⟨act, hmem, hact⟩ := List.any_eq_true.1 hcollects
  split at hact
  · cases of_decide_eq_true hact
    exact ⟨_, hmem⟩
  · cases hact

/-- Whether a process that drives no stack took note of no cancellation and discarded no frame. -/
def undisturbed (run : Trace × System) (task : TaskId) : Bool :=
  (run.2.driven? task).isNone && !(deeds run.1 task).any Act.cuts

theorem uninterrupted_of_undisturbed {run : Trace × System} {task : TaskId} (hundisturbed : undisturbed run task = true) :
    .dropped ∉ deeds run.1 task ∧ ∀ number, Uninterrupted run.1 run.2 task number := by
  obtain ⟨hnone, huncut⟩ := Bool.and_eq_true_iff.1 hundisturbed
  rw [Bool.not_eq_true'] at huncut
  have hkept : .dropped ∉ deeds run.1 task := Act.not_mem_of_any huncut rfl
  exact ⟨hkept, fun _ => ⟨.of_isNone hnone, Act.not_mem_of_any huncut rfl, fun hmem => hkept (mem_of_mem_life hmem)⟩⟩

/-- With a window, the flush has a task of its own: the calls of the others are answered although the call that opened
their batch is canceled. -/
theorem delivered_beside_canceled :
    .noticed ∈ deeds (forsaking 10 ⟨1⟩).1 ⟨1⟩ ∧
      ∃ args enrolment calls returned outcome,
        .acted (.enroll ⟨0, 0, .str "k"⟩ args) enrolment ∈ life (deeds (forsaking 10 ⟨1⟩).1 ⟨3⟩) 2 ∧
        ⟨args, (enrolment : Enrolment).slot⟩ ∈ calls ∧
        Returned (life (deeds (forsaking 10 ⟨1⟩).1 ⟨5⟩) 1) ⟨0, 0, .str "k"⟩ shared calls returned ∧
        .completed outcome ∈ life (deeds (forsaking 10 ⟨1⟩).1 ⟨3⟩) 2 ∧
        ShareOf shared calls ⟨args, (enrolment : Enrolment).slot⟩ returned outcome := by
  have hnotices : (deeds (forsaking 10 ⟨1⟩).1 ⟨1⟩).any Act.notices = true := by decide +kernel
  refine ⟨Act.noticed_mem hnotices, ?_⟩
  have hquiet : undisturbed (forsaking 10 ⟨1⟩) ⟨3⟩ = true ∧ undisturbed (forsaking 10 ⟨1⟩) ⟨5⟩ = true := by
    decide +kernel
  obtain ⟨-, hserved⟩ := uninterrupted_of_undisturbed hquiet.1
  obtain ⟨hkept, hflushed⟩ := uninterrupted_of_undisturbed hquiet.2
  have hopens : opensOnly ⟨1⟩ ⟨0⟩ (forsaking 10 ⟨1⟩).1 = true := by decide +kernel
  have henrolls : enrolls ⟨0, 0, .str "k"⟩ (life (deeds (forsaking 10 ⟨1⟩).1 ⟨3⟩) 2) = true := by decide +kernel
  have hcollects : collects ⟨0, 0, .str "k"⟩ (life (deeds (forsaking 10 ⟨1⟩).1 ⟨5⟩) 1) = true := by decide +kernel
  obtain ⟨args, enrolment, henrolled⟩ := enrolled_of_enrolls henrolls
  obtain ⟨_, hcollected⟩ := collected_of_collects hcollects
  have setting := setting_echoing 10
  have fresh := fresh_forsakers ⟨1⟩
  have runs := runs_forsaking 10 ⟨1⟩
  obtain ⟨descent, lineage, hdelivered⟩ := (delivered_to_each setting fresh runs).launched (unintercepted_echoing 10)
  obtain ⟨opener, frame, more, opening, openedFor, hshare⟩ :=
    hdelivered ⟨3⟩ 2 _ args enrolment henrolled (hserved 2)
  obtain ⟨window, hlaunched⟩ := setting.launched_of_opensOnly fresh runs (unintercepted_echoing 10) lineage hopens hcollected
    openedFor.enrolled openedFor.opened
  have hbegun : life (deeds (forsaking 10 ⟨1⟩).1 ⟨5⟩) 1 ≠ [] := List.ne_nil_of_mem hcollected
  obtain ⟨calls, returned, outcome, hcall, hreturned, hcompleted, hshared⟩ := hshare window ⟨5⟩ 1 hlaunched hbegun
    (hflushed 1) fun _ => hkept
  exact ⟨args, enrolment, calls, returned, outcome, henrolled, hcall, hreturned, hcompleted, hshared⟩

end Batch
end EffectMachine
