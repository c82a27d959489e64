import EffectMachine.Proofs.Batch.Routing

/-!
# Calls that run alone and batches of one

A call without a key that counts runs alone; a call with one may be the only call of its batch.  Both have an invocation
of their function to themselves, with their own arguments only.  What they come to is the same contract for all that
the function can return but one: of a list with several items the call that runs alone takes the first, and the batch,
which has one call, has no use for it.

* `Batch.SameContract` says what it means that two calls get the same, and `Batch.sameContract_iff` when the share of a
  call that runs alone and that of the only call of a batch are the same.
* `Batch.Setting.sole_of_alone` and `Batch.Setting.sole_of_single` find the one invocation of either call.
* `Batch.bypass_agrees` compares the two calls in any runs.
-/

namespace EffectMachine
namespace Batch

variable {machine : Machine} {underlying : Nat → Function} {first : Host} {trace : Trace} {system : System}
variable {descent : Descent} {task caller flusher : TaskId} {number frame place window : Nat} {group : BatchGroup}
variable {function : Function} {args : List Value} {acts : List Act} {returned outcome answer : Outcome}

/-! ## One contract -/

/-- Two calls get the same of what the function has returned: both or none of them a value, which is the same; both the
error that the function failed with; and both a type error when it returned anything but a list of one item. -/
structure SameContract (returned outcome answer : Outcome) : Prop where
  results : ∀ value, outcome = .ok value ↔ answer = .ok value
  failures : ∀ error, returned = .error error → outcome = .error error ∧ answer = .error error
  mismatches : (∀ error, returned ≠ .error error) → (∀ value, returned ≠ .ok (.list [value])) →
    ∃ message another, outcome = .error (.type message) ∧ answer = .error (.type another)

/-- A call that runs alone and the only call of a batch get the same, unless the function has returned a list of several
items. -/
theorem sameContract_iff (halone : AloneShare function returned outcome) (hsingle : ShareAt function 1 0 returned answer) :
    SameContract returned outcome answer ↔ ∀ results, returned = .ok (.list results) → results.length ≤ 1 := by
  have hfailing {message another : String} (hreturned : ∀ error, returned ≠ .error error) :
      SameContract returned (.error (.type message)) (.error (.type another)) :=
    ⟨fun _ => by simp, fun error herror => absurd herror (hreturned error), fun _ _ => ⟨_, _, rfl, rfl⟩⟩
  cases halone with
  | first value rest =>
      cases hsingle with
      | @item results answer hlength hvalue =>
          obtain rfl : rest = [] := List.length_eq_zero_iff.1 (by simpa using hlength)
          obtain rfl : value = answer := by simpa using hvalue
          refine iff_of_true ⟨fun _ => Iff.rfl, nofun, fun _ hother => absurd rfl (hother value)⟩ ?_
          rintro results hresults
          cases hresults
          exact Nat.le_refl 1
      | miscounted hlength =>
          -- the one that takes the first item does not count the others
          refine iff_of_false (fun same => ?_) fun hless => hlength ?_
          · cases (same.results value).1 rfl
          · have hbound := hless _ rfl
            simp only [List.length_cons] at hbound ⊢
            omega
      | unlisted hvalue => exact absurd rfl (hvalue _)
  | empty =>
      cases hsingle with
      | item hlength => cases hlength
      | miscounted => exact iff_of_true (hfailing nofun) fun results hresults => by cases hresults; exact Nat.zero_le 1
      | unlisted hvalue => exact absurd rfl (hvalue _)
  | unlisted hvalue =>
      cases hsingle with
      | unlisted => exact iff_of_true (hfailing nofun) fun results hresults => absurd (Except.ok.inj hresults) (hvalue results)
      | _ => exact absurd rfl (hvalue _)
  | failed error =>
      cases hsingle
      refine iff_of_true ⟨fun _ => Iff.rfl, ?_, fun hother => absurd rfl (hother error)⟩ nofun
      rintro _ ⟨⟩
      exact ⟨rfl, rfl⟩

/-! ## One invocation -/

/-- A call that is served in frame `frame` of `caller` has an invocation of the function to itself, which is made in frame
`place` of `asking` with the arguments of this call only; the call completes when the function has returned. -/
structure Sole (machine : Machine) (trace : Trace) (caller : TaskId) (frame : Nat) (asking : TaskId) (place : Nat)
    (function : Function) (args : List Value) (returned outcome : Outcome) : Prop where
  invokes : Invokes machine trace asking place function [args]
  returned : [.performed (.call function [.list args]), .resumed returned] <:+: strides (life (deeds trace asking) place)
  completed : .completed outcome ∈ life (deeds trace caller) frame

namespace Setting

variable (setting : Setting machine underlying) (fresh : Fresh underlying first)
  (runs : Runs machine first trace system) (undiverted : Undiverted machine)
include runs undiverted

/-- A call without a key that counts has an invocation to itself, which it makes in its own frame. -/
theorem sole_of_alone {batcher definition : Nat} {key : Option BatchKey}
    (hserves : Serves trace task number batcher window definition function key args)
    (served : Uninterrupted trace system task number) (hkey : key.filter BatchKey.isTruthy = none) :
    ∃ returned outcome, Sole machine trace task number task number function args returned outcome ∧
      AloneShare function returned outcome := by
  obtain ⟨-, -, invokes⟩ := alone_of_serves runs undiverted hserves served hkey
  obtain ⟨begun, rest, outcome, hstrides, completes⟩ := strides_of_alone runs hserves served hkey
  obtain ⟨returned, rfl, hshare⟩ := aloneShare_of_completes completes
  refine ⟨returned, outcome, ⟨invokes, ?_, ?_⟩, hshare⟩
  · exact ⟨[.resumed begun, .acted (.emit (.callUnbatched function.name)) ()], [.completed outcome], hstrides.symm⟩
  · exact (mem_strides.1 (by rw [hstrides]; simp)).1

include setting fresh

/-- The only call of a batch has an invocation to itself, which the flush of the batch makes, if the flush was launched by
the service of the call and is left alone. -/
theorem sole_of_single {enrolment : Enrolment}
    (henrolled : .acted (.enroll group args) enrolment ∈ life (deeds trace caller) frame)
    (served : Uninterrupted trace system caller frame)
    (hlaunched : LaunchedBy descent trace caller frame (flush group (underlying group.definition) window) flusher place)
    (hcollected : .acted (.collect group) [(⟨args, enrolment.slot⟩ : Enrolled)] ∈ life (deeds trace flusher) place)
    (alone : LeftAlone trace system flusher place) :
    ∃ returned outcome, Sole machine trace caller frame flusher place (underlying group.definition) args returned outcome ∧
      ShareAt (underlying group.definition) 1 0 returned outcome := by
  have partOf := setting.partOf_of_collected fresh runs undiverted hcollected alone.toUninterrupted
    (List.getElem?_cons_zero)
  cases setting.delivered fresh runs henrolled served hcollected alone.toUninterrupted List.mem_cons_self rfl with
  | @shared returned outcome hreturned hcompleted hshare =>
      obtain ⟨position, hposition, hshare⟩ := hshare
      obtain rfl : position = 0 := by
        have hless := (List.getElem?_eq_some_iff.1 hposition).1
        simpa using hless
      refine ⟨returned, outcome, ⟨partOf.invokes, ?_, hcompleted⟩, hshare⟩
      obtain ⟨before, after, hstrides⟩ := hreturned
      exact ⟨before ++ [.acted (.collect group) [(⟨args, enrolment.slot⟩ : Enrolled)],
        .acted (.emit (.batchFlushed (underlying group.definition).name 1)) ()], after, by simp [hstrides, invocation]⟩
  | refused _ _ _ _ htold =>
      -- the flush was launched and left alone, so the call that launched it was not told an error
      exact absurd htold (setting.not_told_of_undeferred undiverted.toUnintercepted fresh runs hlaunched
        ⟨_, hcollected⟩ alone.toUninterrupted alone.undeferred)

end Setting

/-- A call is the only one of its batch, which is flushed in frame `place` of `flusher`: it has an invocation to itself, and
gets its share of what this returns.  A call that runs alone, to which the function has returned `returned`, gets the same,
unless the function has returned a list of several items. -/
structure SingleAgrees (machine : Machine) (trace : Trace) (caller : TaskId) (frame : Nat) (flusher : TaskId) (place : Nat)
    (function : Function) (args : List Value) (returned outcome result answer : Outcome) : Prop where
  sole : Sole machine trace caller frame flusher place function args result answer
  share : ShareAt function 1 0 result answer
  same : result = returned → (SameContract returned outcome answer ↔
    ∀ results, returned = .ok (.list results) → results.length ≤ 1)

/-- A call that was enrolled opens its batch, with a window of some length, and launches its flush. -/
structure OpensFor (machine : Machine) (underlying : Nat → Function) (descent : Descent) (trace : Trace) (system : System)
    (caller : TaskId) (frame : Nat) (group : BatchGroup) (args : List Value) (slot : Slot) (length : Nat)
    (returned outcome : Outcome) : Prop where
  serves : Serves trace caller frame group.batcher length group.definition (underlying group.definition) (some group.key) args
  /-- If the flush, which can be forked when there is a scheduler, is left alone, then it collects the call, which agrees
  with the call that runs alone if no other call was collected. -/
  flushed : (length ≠ 0 → system.parked.scheduled = true) → ∃ flusher place,
    LaunchedBy descent trace caller frame (flush group (underlying group.definition) length) flusher place ∧
    (LeftAlone trace system flusher place → ∃ calls : List Enrolled,
      .acted (.collect group) calls ∈ life (deeds trace flusher) place ∧ ⟨args, slot⟩ ∈ calls ∧
      (calls.length = 1 → ∃ result answer, SingleAgrees machine trace caller frame flusher place
        (underlying group.definition) args returned outcome result answer))

/-- A call that runs alone in frame `number` of `task` comes to `outcome` after the function has returned `returned`, and
the same call is made with a key in frame `frame` of `caller`, in another run. -/
structure BypassAgrees (machine : Machine) (underlying : Nat → Function) (trace : Trace) (task : TaskId) (number : Nat)
    (second : Host) (retrace : Trace) (another : System) (caller : TaskId) (frame : Nat) (group : BatchGroup)
    (args : List Value) (returned outcome : Outcome) : Prop where
  sole : Sole machine trace task number task number (underlying group.definition) args returned outcome
  share : AloneShare (underlying group.definition) returned outcome
  /-- The call with a key is enrolled, and if it opens a batch it agrees with the call that runs alone. -/
  keyed : ∃ descent enrolment, Lineage machine underlying second descent retrace another.parked ∧
    .acted (.enroll group args) enrolment ∈ life (deeds retrace caller) frame ∧
    (enrolment.opened = true → ∃ length, OpensFor machine underlying descent retrace another caller frame group args
      enrolment.slot length returned outcome)

/-- A call without a key that counts agrees with the same call, made with a key that counts, when it is the only one of its
batch.  Both have one invocation of the function to themselves, with the same argument list; and if the function returns
the same to both they get the same, but for one case: it has returned a list of several items. -/
theorem bypass_agrees {second : Host} {retrace : Trace} {another : System} (setting : Setting machine underlying)
    (undiverted : Undiverted machine) (runs : Runs machine first trace system)
    (fresh : Fresh underlying second) (reruns : Runs machine second retrace another)
    {batcher length : Nat} {key : Option BatchKey}
    (hserves : Serves trace task number batcher window group.definition (underlying group.definition) key args)
    (served : Uninterrupted trace system task number) (hkey : key.filter BatchKey.isTruthy = none)
    (hkeyed : Serves retrace caller frame group.batcher length group.definition (underlying group.definition)
      (some group.key) args)
    (reserved : Uninterrupted retrace another caller frame) (htruthy : group.key.isTruthy = true) :
    ∃ returned outcome, BypassAgrees machine underlying trace task number second retrace another caller frame group args
      returned outcome := by
  obtain ⟨returned, outcome, sole, hshare⟩ := Setting.sole_of_alone runs undiverted hserves served hkey
  obtain ⟨descent, lineage⟩ := setting.lineage undiverted.toUnintercepted fresh reruns
  obtain ⟨enrolment, henrolled⟩ := Setting.enrolled_of_serves reruns hkeyed reserved htruthy
  refine ⟨returned, outcome, sole, hshare, ⟨descent, enrolment, lineage, henrolled, fun hopened => ?_⟩⟩
  obtain ⟨opener, other, more, opening, openedFor, hself⟩ :=
    exists_openedFor (setting.books fresh reruns).recorded henrolled
  obtain ⟨rfl, rfl⟩ := hself hopened
  obtain ⟨kind, length, tag, hopener, hlaunches⟩ :=
    setting.launched_of_opening undiverted.toUnintercepted fresh reruns lineage henrolled hopened
  refine ⟨length, ⟨kind, tag, hopener⟩, fun hscheduled => ?_⟩
  obtain ⟨flusher, place, hlaunched⟩ := hlaunches reserved undiverted.forks hscheduled
  refine ⟨flusher, place, hlaunched, fun alone => ?_⟩
  obtain ⟨calls, hcollected, hmember⟩ := setting.collected_of_openedFor fresh reruns undiverted.toUnintercepted lineage
    openedFor hlaunched alone
  refine ⟨calls, hcollected, hmember, fun hone => ?_⟩
  obtain rfl : calls = [⟨args, enrolment.slot⟩] := by
    obtain ⟨call, rfl⟩ := List.length_eq_one_iff.1 hone
    rw [List.mem_singleton.1 hmember]
  obtain ⟨result, answer, single, hanswer⟩ :=
    setting.sole_of_single fresh reruns undiverted henrolled reserved hlaunched hcollected alone
  exact ⟨result, answer, single, hanswer, by rintro rfl; exact sameContract_iff hshare hanswer⟩

/-! ## One call, with a key and without -/

/-- A call with some key, or with none. -/
def callWithKey (key : Option BatchKey) : Effect :=
  operation 0 shared key [.int 7]

/-- What becomes of the call. -/
def keyed (key : Option BatchKey) : Trace × System :=
  (System.submitting (.blank 0) (callWithKey key)).execute (echoing 10) 81

theorem fresh_keyed (key : Option BatchKey) :
    Fresh (fun _ => shared) (System.clients (.blank 0) [.perform (callWithKey key) .done]) where
  clients := List.forall_mem_singleton.2 ⟨_, rfl, fun _ => ⟨rfl, fun _ => trivial⟩⟩
  batches := rfl

theorem runs_keyed (key : Option BatchKey) :
    Runs (echoing 10) (System.clients (.blank 0) [.perform (callWithKey key) .done]) (keyed key).1 (keyed key).2 :=
  .submitted (echoing 10) (.blank 0) (callWithKey key) 81

theorem serves_keyed (key : Option BatchKey) : Serves (keyed key).1 ⟨0⟩ 1 0 10 0 shared key [.int 7] := by
  have hhandlers : (echoing 10).registry.handlersOf (callWithKey key).operation.kind =
      [.ofHandle fun operation _ => handle 0 10 operation] := by
    simp [Registry.handlersOf, echoing, batching, callWithKey, operation, Effect.operation, Effect.kind]
  have hsubmits : (echoing 10).submission (callWithKey key) = callWithKey key := rfl
  exact ⟨_, _, Runs.mem_life_submitted hsubmits rfl hhandlers 80⟩

/-- Whether every call opens a batch, and every batch has one call. -/
def singles (trace : Trace) : Bool :=
  trace.all fun
    | (_, .acted (.enroll _ _) enrolment) => (enrolment : Enrolment).opened
    | (_, .acted (.collect _) calls) => (calls : List Enrolled).length = 1
    | _ => true

theorem opened_of_singles (hsingles : singles trace = true) {enrolment : Enrolment}
    (henrolled : .acted (.enroll group args) enrolment ∈ life (deeds trace task) number) : enrolment.opened = true :=
  List.all_eq_true.1 hsingles _ (mem_deeds_iff.1 (mem_of_mem_life henrolled))

theorem length_of_singles (hsingles : singles trace = true) {calls : List Enrolled}
    (hcollected : .acted (.collect group) calls ∈ life (deeds trace task) number) : calls.length = 1 :=
  of_decide_eq_true (List.all_eq_true.1 hsingles _ (mem_deeds_iff.1 (mem_of_mem_life hcollected)))

/-- Whether a computation was told that everything which it performed has come to the argument list of the call. -/
def echoed (acts : List Act) : Bool :=
  (acts.zip acts.tail).all fun
    | (.performed (.call _ _), .resumed (.ok (.list [.list [.int n]]))) => n == 7
    | (.performed (.call _ _), .resumed _) => false
    | _ => true

theorem eq_of_echoed {called : List Value} (hechoed : echoed acts = true)
    (hwithin : [.performed (.call function called), .resumed returned] <:+: acts) :
    returned = .ok (.list [.list [.int 7]]) := by
  obtain ⟨before, after, rfl⟩ := hwithin
  have hmem : (Act.performed (.call function called), Act.resumed returned) ∈
      (before ++ [Act.performed (.call function called), .resumed returned] ++ after).zip
        (before ++ [Act.performed (.call function called), .resumed returned] ++ after).tail := by
    refine List.mem_iff_getElem?.2 ⟨before.length, ?_⟩
    simp
  have hvalue := List.all_eq_true.1 hechoed _ hmem
  split at hvalue
  · rename_i hpair
    cases hpair
    rw [beq_iff_eq.1 hvalue]
  · cases hvalue
  · rename_i hother
    exact absurd rfl (hother _ _ _)

/-- A call that is made with the key `false`, and the same call with a key that counts: both get the one item that the
function returns. -/
theorem bypass_agrees_echo : ∃ returned outcome flusher place answer,
    Sole (echoing 10) (keyed (some (.bool false))).1 ⟨0⟩ 1 ⟨0⟩ 1 shared [.int 7] returned outcome ∧
    Sole (echoing 10) (keyed (some (.str "k"))).1 ⟨0⟩ 1 flusher place shared [.int 7] returned answer ∧
    SameContract returned outcome answer := by
  have hquiet : undisturbed (keyed (some (.bool false))) ⟨0⟩ = true ∧ undisturbed (keyed (some (.str "k"))) ⟨0⟩ = true ∧
      undisturbed (keyed (some (.str "k"))) ⟨1⟩ = true := by
    decide +kernel
  obtain ⟨-, hserved⟩ := uninterrupted_of_undisturbed hquiet.1
  obtain ⟨-, hreserved⟩ := uninterrupted_of_undisturbed hquiet.2.1
  obtain ⟨hkept, hflushed⟩ := uninterrupted_of_undisturbed hquiet.2.2
  have hcollects : collects ⟨0, 0, .str "k"⟩ (life (deeds (keyed (some (.str "k"))).1 ⟨1⟩) 1) = true := by
    decide +kernel
  have hopens : opensOnly ⟨0⟩ ⟨0⟩ (keyed (some (.str "k"))).1 = true := by decide +kernel
  have hsingles : singles (keyed (some (.str "k"))).1 = true := by decide +kernel
  obtain ⟨_, hcollected⟩ := collected_of_collects hcollects
  have setting := setting_echoing 10
  have undiverted := undiverted_echoing 10
  have fresh := fresh_keyed (some (.str "k"))
  have runs := runs_keyed (some (.str "k"))
  have hkeyed : Serves (keyed (some (.str "k"))).1 ⟨0⟩ 1 (⟨0, 0, .str "k"⟩ : BatchGroup).batcher 10 0 shared
      (some (⟨0, 0, .str "k"⟩ : BatchGroup).key) [.int 7] := serves_keyed (some (.str "k"))
  obtain ⟨returned, outcome, sole, -, ⟨descent, enrolment, lineage, henrolled, hopening⟩⟩ :=
    bypass_agrees setting undiverted (runs_keyed (some (.bool false))) fresh runs
      (serves_keyed (some (.bool false))) (hserved 1) rfl hkeyed (hreserved 1) rfl
  obtain ⟨length, -, hlaunches⟩ := hopening (opened_of_singles hsingles henrolled)
  obtain ⟨flusher, place, hlaunched, hleft⟩ := hlaunches fun _ => by decide +kernel
  obtain ⟨again, hcollector⟩ := setting.launched_of_opensOnly fresh runs undiverted.toUnintercepted lineage hopens hcollected
    henrolled (opened_of_singles hsingles henrolled)
  obtain ⟨rfl, rfl⟩ := setting.launched_once undiverted.toUnintercepted fresh runs lineage ⟨_, _, rfl⟩ ⟨_, _, rfl⟩
    hlaunched hcollector
  obtain ⟨calls, hcalls, -, hsingle⟩ := hleft
    ⟨hflushed 1, List.ne_nil_of_mem hcollected, setting.not_deferring_of_collect fresh runs hcollected hkept⟩
  obtain ⟨result, answer, single, -, hcontract⟩ := hsingle (length_of_singles hsingles hcalls)
  have hfirst : returned = .ok (.list [.list [.int 7]]) := eq_of_echoed (by decide +kernel) sole.returned
  obtain rfl : result = returned := by
    rw [hfirst]
    exact eq_of_echoed (by decide +kernel) single.returned
  refine ⟨result, outcome, ⟨1⟩, 1, answer, sole, single, (hcontract rfl).2 fun results hresults => ?_⟩
  rw [hfirst] at hresults
  cases hresults
  exact Nat.le_refl 1

end Batch
end EffectMachine
