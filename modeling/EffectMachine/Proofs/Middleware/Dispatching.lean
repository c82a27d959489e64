import EffectMachine.Proofs.Explicit.Equivalence
import EffectMachine.Proofs.Middleware.Phases

/-!
# Effects behind an observer

Handing an effect on behind an observer comes to what it comes to without, as long as the core rules that are applied on
the way spare the frames of the observer.

* `Observer.Poised.core` is the case of a core rule, and `Observer.dispatches` that of any effect.
* `Observer.Poised.handle` is the case of an effect that is checked first.
-/

namespace EffectMachine

namespace Run

variable (run : Run)

/-- An answer is an outcome, which finished frames have already. -/
theorem answerTop_eq (value : Value) : run.answerTop value = run.absorbTop (.ok value) := by
  obtain ⟨⟨context, signal, ⟨progress, name, tag, result, defers, cancellation, answerable⟩, below, canceled⟩, host⟩ := run
  cases progress <;> cases result <;> rfl

/-- A failure is an outcome; one that comes too late is reported. -/
theorem exists_failTop (error : Error) : ∃ events,
    run.failTop error = ({ run with host := { run.host with events } } : Run).absorbTop (.error error) := by
  obtain ⟨⟨context, signal, ⟨progress, name, tag, result, defers, cancellation, answerable⟩, below, canceled⟩, host⟩ := run
  cases progress <;> cases result <;> exact ⟨_, rfl⟩

theorem exists_refused (error : Error) : ∃ events,
    run.refused error = ({ run with host := { run.host with events } } : Run).absorbTop (.error error) :=
  (run.emit _).exists_failTop error

/-- There is nothing to recover unless the frame below has failed. -/
theorem recover_eq_self (hkept : run.stack.below.head?.any Frame.isFailed = false) :
    run.recover = run := by
  unfold recover
  cases hbelow : run.stack.below with
  | nil => rfl
  | cons parent rest =>
      rw [hbelow] at hkept
      have hkept : parent.isFailed = false := hkept
      dsimp only
      split
      · rename_i error hfinished hresult
        simp [Frame.isFailed, hfinished, hresult] at hkept
      · rfl

end Run

/-- Dispatching an effect is dispatching the operation that it stands for. -/
theorem Machine.dispatch_operation (machine : Machine) (effect : Effect) (first : Nat) (run : Run) :
    machine.dispatch effect.operation first run = machine.dispatch effect first run ∧
      machine.dispatchActs effect.operation first run = machine.dispatchActs effect first run := by
  cases effect with
  | bare computation =>
      refine ⟨machine.dispatch_bare computation first run, ?_⟩
      unfold dispatchActs
      rfl
  | _ => exact ⟨rfl, rfl⟩

/-- What an effect wraps is one kind less deep. -/
theorem Effect.wrappedKinds_of_wrapped? {effect inner : Effect} (hwrapped : effect.wrapped? = some inner) :
    effect.wrappedKinds = inner.kind :: inner.wrappedKinds := by
  cases effect with
  | fork effect | start effect | defer effect | terminal effect | next effect inPlace =>
      cases hwrapped
      rfl
  | _ => cases hwrapped

namespace Observer

open Middleware Machine

variable {observer : Observer} {fronted machine : Machine} {watched run : Run}

/-- Whatever is caught, nothing is run for it. -/
@[simp] theorem services_catchActs (kinds : List String) (run : Run) : services kinds (catchActs run) = [] := by
  unfold catchActs
  split
  · rfl
  · split <;> rfl

@[simp] theorem services_failureActs (kinds : List String) (failure : Option Error) :
    services kinds (failureActs failure) = [] := by
  cases failure <;> rfl

namespace Poised

variable (hpoised : observer.Poised watched run)

include hpoised

/-- The top frames are refused an effect. -/
theorem refused (machine : Machine) (error : Error) : ∃ place,
    observer.Leads machine (watched.refused error) (run.refused error) [] place ∧
      place < rank 0 (watched.stack.height + 1) 0 := by
  obtain ⟨watchedEvents, hwatched⟩ := watched.exists_refused error
  obtain ⟨events, hrun⟩ := run.exists_refused error
  rw [hwatched, hrun]
  exact (hpoised.withHost (hpoised.alike.withEvents watchedEvents events)).absorb machine (.error error)

/-- The top frames are discarded, unless there is nothing below them. -/
theorem terminateTop (hother : owns observer.kinds watched.stack.top = false) :
    (∃ error, watched.terminateTop = .error error ∧ run.terminateTop = .error error) ∨
    ∃ watchedNext next, watched.terminateTop = .ok watchedNext ∧ run.terminateTop = .ok next ∧
      observer.Poised watchedNext next ∧ watchedNext.stack.height < watched.stack.height := by
  obtain ⟨htop, hplain⟩ := hpoised.covers.top_and_below hother
  have hempty := hpoised.covers.below_eq_nil_iff hother
  cases hbelow : watched.stack.below with
  | nil =>
      refine .inl ⟨.validation "terminal: no enclosing frame to terminate", ?_, ?_⟩
      · simp only [Run.terminateTop, hbelow]
      · simp only [Run.terminateTop, hempty.2 hbelow]
  | cons parent rest =>
      obtain ⟨frame, below, hstack⟩ : ∃ frame below, run.stack.below = frame :: below :=
        List.exists_cons_of_ne_nil fun hnone => by simp [hempty.1 hnone] at hbelow
      have hanswerable : run.stack.top.answerable = watched.stack.top.answerable := by rw [htop]; rfl
      -- the reports differ in the labels of the frames, and do not count
      have halike (watchedEvents events : Array Event) : observer.Alike
          (({ watched.host with events := watchedEvents } : Host).close watched.stack.top.answerable)
          (({ run.host with events } : Host).close run.stack.top.answerable) := by
        rw [hanswerable]
        exact (hpoised.alike.withEvents _ _).close _
      refine .inr ?_
      simp only [Run.terminateTop, hbelow, hstack]
      refine ⟨_, _, rfl, rfl, ?_, by simp [Stack.height, hbelow]⟩
      split <;> split <;> exact .of_pop hpoised.covers (halike _ _) hbelow hother hstack

/-- The error of the frames below is taken on both stacks, or on none. -/
theorem recover (hspares : Ruling.spares observer.kinds ⟨.recover, watched⟩ = true) : ∃ place,
    observer.Leads machine watched.recover run.recover [] place ∧ place < rank 0 (watched.stack.height + 1) 0 := by
  -- nothing is taken unless a frame below has failed
  have hkept (hwatched : watched.stack.below.head?.any Frame.isFailed = false)
      (hrun : run.stack.below.head?.any Frame.isFailed = false) : ∃ place,
      observer.Leads machine watched.recover run.recover [] place ∧ place < rank 0 (watched.stack.height + 1) 0 := by
    rw [watched.recover_eq_self hwatched, run.recover_eq_self hrun]
    exact hpoised.stays machine
  simp only [Ruling.spares, Bool.or_eq_true, Bool.and_eq_true, Bool.not_eq_true'] at hspares
  rcases hspares with ⟨hother, hnext⟩ | ⟨hwatched, hrun⟩
  · cases hbelow : watched.stack.below with
    | nil =>
        have hempty := (hpoised.covers.below_eq_nil_iff hother).2 hbelow
        exact hkept (by rw [hbelow]; rfl) (by rw [hempty]; rfl)
    | cons parent rest =>
        rw [hbelow] at hnext
        have hparent : owns observer.kinds parent = false := hnext
        have hplain : run.stack.below = plainFrame observer.kinds parent :: plainFrames observer.kinds rest := by
          rw [(hpoised.covers.top_and_below hother).2, hbelow, plainFrames_other _ _ hparent]
        cases hfailed : parent.isFailed with
        | false => exact hkept (by rw [hbelow]; exact hfailed) (by rw [hplain]; exact hfailed)
        | true =>
            obtain ⟨error, hfinished, hresult⟩ := Frame.exists_of_isFailed hfailed
            have hplainFinished : (plainFrame observer.kinds parent).isFinished = true := hfinished
            have hplainResult : (plainFrame observer.kinds parent).result = .error error := hresult
            unfold Run.recover
            simp only [hbelow, hplain, hfinished, hresult, hplainFinished, hplainResult]
            have hcovers := hpoised.covers.recover hother hbelow hparent hfinished (.ok (.error error)) (.ok .null)
            exact ⟨_, .rests hcovers ⟨hother, fun body hrunning => absurd hrunning (hpoised.expectant.idle body)⟩
              (hpoised.alike.emit _ _), rank_pos (Nat.succ_pos _)⟩
  · rw [← hpoised.covers.frames] at hrun
    exact hkept (by simpa [List.head?_eq_getElem?] using hwatched) (by simpa [List.head?_eq_getElem?] using hrun)

end Poised

/-- Dispatching an effect behind an observer comes to what it comes to without. -/
def Dispatches (observer : Observer) (fronted machine : Machine) (effect : Effect) : Prop :=
  ∀ (first : Nat) (watched run : Run), observer.Poised watched run →
    (∀ ruling ∈ fronted.dispatchRulings effect first watched, ruling.spares observer.kinds = true) →
    observer.Comes machine (settled (fronted.dispatch effect first watched))
      (settled (machine.dispatch effect (first - observer.kinds.count effect.kind) run))
      (fronted.dispatchActs effect first watched)
      (machine.dispatchActs effect (first - observer.kinds.count effect.kind) run)
      (rank 0 (watched.stack.height + 3 + 2 * observer.reach effect first) 0)

theorem reach_le_wrappedReach (observer : Observer) {effect inner : Effect} (hwrapped : effect.wrapped? = some inner) (position : Nat) :
    observer.reach inner position ≤ observer.wrappedReach effect := by
  unfold reach wrappedReach
  rw [Effect.wrappedKinds_of_wrapped? hwrapped, List.foldr_cons]
  omega

/-- What is left of a delegation behind an observer: nothing, or the effect with its position. -/
theorem Poised.delegation (hpoised : observer.Poised watched run)
    (hother : owns observer.kinds watched.stack.top = false) (effect : Effect) :
    Machine.delegation run effect =
      (Machine.delegation watched effect).map fun position => position - observer.kinds.count effect.kind := by
  have htag : run.stack.top.tag = watched.stack.top.tag.map (plainTag observer.kinds) := by
    rw [(hpoised.covers.top_and_below hother).1]
    rfl
  unfold Machine.delegation
  rw [htag]
  cases hwatched : watched.stack.top.tag with
  | none => rfl
  | some tag =>
      have hindex : observer.kinds.count tag.kind ≤ tag.index := by
        have hbehind : ownsTag observer.kinds tag = false := by
          rw [owns, hwatched] at hother
          exact hother
        exact Nat.le_of_not_lt (of_decide_eq_false hbehind)
      show (if tag.kind = effect.kind then _ else _) = Except.map _ (if tag.kind = effect.kind then _ else _)
      split
      · rename_i hkind
        rw [← hkind]
        exact congrArg Except.ok (Nat.sub_add_comm hindex).symm
      · rfl

/-- Applying the core rule of an effect behind an observer comes to what it comes to without. -/
def Applies (observer : Observer) (fronted machine : Machine) (effect : Effect) (watched run : Run) : Prop :=
  observer.Comes machine (settled (fronted.core effect watched)) (settled (machine.core effect run))
    (fronted.coreActs effect watched) (machine.coreActs effect run)
    (rank 0 (watched.stack.height + 3 + 2 * observer.wrappedReach effect) 0)

/-- Most rules come to rest, or to the end of a frame of the observer. -/
theorem Comes.of_exists_leads {watchedActs acts : List Act} {height : Nat}
    (hleads : ∃ place, observer.Leads machine watched run [] place ∧ place < rank 0 (height + 1) 0)
    (hservices : services observer.kinds watchedActs = services [] acts) (more : Nat) :
    observer.Comes machine watched run watchedActs acts (rank 0 (height + 3 + more) 0) := by
  obtain ⟨place, hleads, hplace⟩ := hleads
  exact .of_leads hleads hservices (hplace.trans (rank_lt.2 (.inr ⟨rfl, .inl (by omega)⟩)))

namespace Poised

variable (hpoised : observer.Poised watched run)

include hpoised

/-- A computation that no handler asks for is pushed on both stacks. -/
theorem comes_push {watchedHost host : Host} (halike : observer.Alike watchedHost host) (computation : Computation)
    (more : Nat) :
    observer.Comes machine (({ watched with host := watchedHost } : Run).push computation none)
      (({ run with host } : Run).push computation none) [.pushed computation none] [.pushed computation none]
      (rank 0 (watched.stack.height + 3 + more) 0) := by
  have htag : (none : Option HandlerTag).any (ownsTag observer.kinds) = false := rfl
  exact .of_exists_leads ⟨_, (hpoised.withHost halike).push computation htag, rank_pos (Nat.succ_pos _)⟩ rfl more

/-- An effect is forked from both stacks, or from none. -/
theorem applies_fork (inner : Effect) : observer.Applies fronted machine (.fork inner) watched run := by
  simp only [Applies, Machine.core, coreActs]
  unfold Machine.fork
  rw [hpoised.alike.scheduled]
  split
  · have hnew : (Activity.forked watched.stack.context inner).stack? = none := rfl
    obtain ⟨htask, hspawned⟩ := hpoised.alike.spawn hnew
    rw [hpoised.covers.context]
    simp only [Run.answerTop_eq, htask]
    exact .of_exists_leads ((hpoised.withHost (hspawned.emit _ _)).absorb machine _) rfl _
  · exact .of_exists_leads (hpoised.refused machine _) rfl _

/-- An effect is deferred on the top frames of both stacks. -/
theorem applies_defer {inner : Effect} (hother : owns observer.kinds watched.stack.top = false) :
    observer.Applies fronted machine (.defer inner) watched run := by
  have hcovers := hpoised.covers.withTop (fun frame => { frame with defers := inner :: frame.defers }) rfl (fun _ => rfl)
    hother rfl
  have hrests : observer.Rests (watched.deferOnTop inner).stack :=
    ⟨hother, fun body hrunning => absurd hrunning (hpoised.expectant.idle body)⟩
  have hleads : observer.Leads machine (watched.deferOnTop inner) (run.deferOnTop inner) [] _ :=
    .rests hcovers hrests hpoised.alike
  exact .of_exists_leads ⟨_, hleads, rank_pos (Nat.succ_pos _)⟩ rfl _

section Wrapped

variable {effect inner : Effect} (hinner : effect.wrapped? = some inner) (hdispatches : observer.Dispatches fronted machine inner)

include hinner hdispatches

/-- A rule may go on with the wrapped effect on the same stack. -/
theorem goes_on {position : Nat}
    (hrulings : ∀ ruling ∈ fronted.dispatchRulings inner position watched, ruling.spares observer.kinds = true) :
    observer.Comes machine (settled (fronted.dispatch inner position watched))
      (settled (machine.dispatch inner (position - observer.kinds.count inner.kind) run))
      (fronted.dispatchActs inner position watched)
      (machine.dispatchActs inner (position - observer.kinds.count inner.kind) run)
      (rank 0 (watched.stack.height + 3 + 2 * observer.wrappedReach effect) 0) := by
  have hreach := observer.reach_le_wrappedReach hinner position
  exact (hdispatches position watched run hpoised hrulings).mono (rank_le (by omega) 0)

/-- A rule may discard the top frames, and go on with the wrapped effect on what is left. -/
theorem goes_on_in_place (hother : owns observer.kinds watched.stack.top = false) {position plain : Nat}
    (hposition : plain = position - observer.kinds.count inner.kind)
    (hrulings : ∀ next, watched.terminateTop = .ok next →
      ∀ ruling ∈ fronted.dispatchRulings inner position next, ruling.spares observer.kinds = true) :
    observer.Comes machine (settled (fronted.dispatchInPlace inner position watched))
      (settled (machine.dispatchInPlace inner plain run)) (fronted.inPlaceActs inner position watched)
      (machine.inPlaceActs inner plain run) (rank 0 (watched.stack.height + 3 + 2 * observer.wrappedReach effect) 0) := by
  unfold dispatchInPlace inPlaceActs
  subst hposition
  rcases hpoised.terminateTop hother with ⟨error, hwatched, hrun⟩ | ⟨watchedNext, next, hwatched, hrun, hnext, hheight⟩
  · simp only [hwatched, hrun]
    exact .of_exists_leads (hpoised.refused machine error) rfl _
  · simp only [hwatched, hrun]
    have hcomes := hnext.goes_on hinner hdispatches (hrulings watchedNext hwatched)
    exact (hcomes.mono (rank_le (by omega) 0)).after [.dropped] [.dropped] rfl

end Wrapped

/-- A terminal operation discards the top frames of both stacks, or of none. -/
theorem applies_terminal {inner : Effect} (hother : owns observer.kinds watched.stack.top = false)
    (hlater : ∀ ruling ∈ fronted.coreRulings (.terminal inner) watched, ruling.spares observer.kinds = true)
    (hdispatches : observer.Dispatches fronted machine inner) :
    observer.Applies fronted machine (.terminal inner) watched run := by
  have hinner : (Effect.terminal inner).wrapped? = some inner := rfl
  refine hpoised.goes_on_in_place hinner hdispatches hother (Nat.zero_sub _).symm fun next hnext => ?_
  simpa only [coreRulings, hnext] using hlater

/-- A delegation goes on behind the same handler on both stacks, or on none. -/
theorem applies_next {inner : Effect} {inPlace : Bool} (hother : owns observer.kinds watched.stack.top = false)
    (hlater : ∀ ruling ∈ fronted.coreRulings (.next inner inPlace) watched, ruling.spares observer.kinds = true)
    (hdispatches : observer.Dispatches fronted machine inner) :
    observer.Applies fronted machine (.next inner inPlace) watched run := by
  simp only [coreRulings] at hlater
  simp only [Applies, Machine.core, coreActs, hpoised.delegation hother]
  cases hposition : Machine.delegation watched inner with
  | error error => exact .of_exists_leads (hpoised.refused machine error) rfl _
  | ok position =>
      simp only [hposition] at hlater
      cases inPlace with
      | false => exact hpoised.goes_on rfl hdispatches hlater
      | true =>
          refine hpoised.goes_on_in_place rfl hdispatches hother rfl fun next hnext => ?_
          simpa only [hnext, if_true] using hlater

/-- Applying a core rule behind an observer comes to what it comes to without, if dispatching the wrapped effect does. -/
theorem core (hfronts : observer.Fronts fronted machine) (effect : Effect)
    (hspares : Ruling.spares observer.kinds ⟨effect, watched⟩ = true)
    (hlater : ∀ ruling ∈ fronted.coreRulings effect watched, ruling.spares observer.kinds = true)
    (hwrapped : ∀ inner, effect.wrapped? = some inner → observer.Dispatches fronted machine inner) :
    observer.Applies fronted machine effect watched run := by
  cases effect with
  | bare computation => exact hpoised.comes_push hpoised.alike computation _
  | execute computation => exact hpoised.comes_push hpoised.alike computation _
  | call function args =>
      simp only [Applies, Machine.core, coreActs, hfronts.invoke]
      exact hpoised.comes_push (hpoised.alike.emit _ _) _ _
  | fork inner => exact hpoised.applies_fork inner
  | start inner =>
      have hinner : (Effect.start inner).wrapped? = some inner := rfl
      have hcomes := hpoised.goes_on hinner (hwrapped inner rfl) hlater
      rwa [Nat.zero_sub] at hcomes
  | defer inner => exact hpoised.applies_defer (by simpa [Ruling.spares] using hspares)
  | recover => exact .of_exists_leads (hpoised.recover hspares) (by simp [coreActs]) _
  | terminal inner => exact hpoised.applies_terminal (by simpa [Ruling.spares] using hspares) hlater (hwrapped inner rfl)
  | generator => cases hspares
  | next inner inPlace => exact hpoised.applies_next (by simpa [Ruling.spares] using hspares) hlater (hwrapped inner rfl)
  | custom kind payload => exact .of_exists_leads (hpoised.refused machine _) rfl _

/-- An observer services an effect: it is about to delegate it, which the other run has dispatched. -/
theorem observes (hfronts : observer.Fronts fronted machine) {effect : Effect} {first : Nat}
    (hfirst : first < observer.kinds.count effect.kind) :
    observer.Comes machine (settled (fronted.dispatch effect first watched)) (settled (machine.dispatch effect 0 run))
      (fronted.dispatchActs effect first watched) (machine.dispatchActs effect 0 run)
      (rank 0 (watched.stack.height + 3 + 2 * observer.reach effect first) 0) := by
  have hposition : first < observer.kinds.count effect.operation.kind := effect.kind_operation.symm ▸ hfirst
  have hselects : fronted.registry.Selects effect.operation watched.stack.context first watched.host
      (some (first, observer.handler)) watched.host :=
    Registry.selects_iff.2 (by rw [hfronts.select_own hposition]; rfl)
  have htag : (Frame.ofComputation (observer.computation effect.operation) (some ⟨effect.kind, first⟩)).tag =
      some ⟨effect.operation.kind, first⟩ := by
    rw [effect.kind_operation]
    rfl
  have hown : ownsTag observer.kinds ⟨effect.kind, first⟩ = true := decide_eq_true hfirst
  have hcovers := hpoised.covers.push_own
    (show owns observer.kinds (.ofComputation (observer.computation effect.operation) (some ⟨effect.kind, first⟩)) = true from
      hown) hpoised.holds hpoised.expectant
  have hreach : observer.reach effect.operation first = observer.reach effect first := by
    cases effect <;> rfl
  obtain ⟨hdispatch, hacts⟩ := machine.dispatch_operation effect 0 run
  rw [dispatch_eq watched hselects, dispatchActs_eq watched hselects, ← hdispatch, ← hacts, ← hreach]
  refine ⟨_, _, .opens hcovers (hpoised.alike.emit_left _) ⟨hown, rfl, rfl, rfl⟩ htag hposition rfl (.fresh rfl), ?_, ?_⟩
  · simp [serveActs, services, service?, hown]
  · refine rank_lt.2 (.inr ⟨rfl, .inl ?_⟩)
    show watched.stack.height + 1 + 1 + _ < _
    omega

/-- Another handler services an effect. -/
theorem serves (effect : Effect) (first index : Nat) (handler : Handler) :
    observer.Comes machine
      (settled (fronted.serve effect (some (index + observer.kinds.count effect.kind, handler)) watched))
      (settled (machine.serve effect (some (index, handler)) run))
      [.pushed (handler.handle effect.operation watched.stack.context)
        (some ⟨effect.kind, index + observer.kinds.count effect.kind⟩)]
      [.pushed (handler.handle effect.operation run.stack.context) (some ⟨effect.kind, index⟩)]
      (rank 0 (watched.stack.height + 3 + 2 * observer.reach effect first) 0) := by
  have hother : (some ⟨effect.kind, index + observer.kinds.count effect.kind⟩ : Option HandlerTag).any
      (ownsTag observer.kinds) = false :=
    decide_eq_false (Nat.not_lt_of_le (Nat.le_add_left _ _))
  have hplain : (some ⟨effect.kind, index + observer.kinds.count effect.kind⟩ : Option HandlerTag).map
      (plainTag observer.kinds) = some ⟨effect.kind, index⟩ := by
    simp [plainTag]
  rw [hpoised.covers.context]
  refine .of_leads ?_ ?_ (rank_pos (by omega))
  · show observer.Leads machine (Run.push (watched.emit _) _ _)
      (Run.push (run.emit _) (handler.handle effect.operation run.stack.context) (some ⟨effect.kind, index⟩)) _ _
    rw [← hplain, hpoised.covers.context]
    exact (hpoised.withHost (hpoised.alike.emit _ _)).push _ hother
  · simp only [services, service?, List.filterMap_cons, hother, hplain]
    simp [ownsTag]

/-- Behind the observer are the same handlers. -/
theorem select (hfronts : observer.Fronts fronted machine) {effect : Effect} {first : Nat}
    (hfirst : observer.kinds.count effect.kind ≤ first) : ∃ choice watchedLater later,
      fronted.registry.Selects effect.operation watched.stack.context first watched.host
        (choice.map fun entry => (entry.1 + observer.kinds.count effect.kind, entry.2)) watchedLater ∧
      machine.registry.Selects effect.operation run.stack.context (first - observer.kinds.count effect.kind) run.host choice
        later ∧
      observer.Alike watchedLater later := by
  rw [← effect.kind_operation] at hfirst
  obtain ⟨hchoice, halike⟩ := hpoised.alike.run (machine.registry.select effect.operation run.stack.context
    (first - observer.kinds.count effect.kind))
  refine ⟨_, _, _, Registry.selects_iff.2 ?_, Registry.selects_iff.2 rfl, halike⟩
  rw [hfronts.run_select hfirst, effect.kind_operation, hchoice, hpoised.covers.context]

end Poised

/-- Dispatching any effect behind an observer comes to what it comes to without. -/
theorem dispatches (hfronts : observer.Fronts fronted machine) (effect : Effect) :
    observer.Dispatches fronted machine effect := by
  induction effect using Effect.wrapped_induction with
  | step effect ih =>
      intro first watched run hpoised hspares
      by_cases hfirst : first < observer.kinds.count effect.kind
      · rw [Nat.sub_eq_zero_of_le (Nat.le_of_lt hfirst)]
        exact hpoised.observes hfronts hfirst
      · obtain ⟨choice, watchedLater, later, hwatched, hrun, halike⟩ := hpoised.select hfronts (Nat.le_of_not_lt hfirst)
        rw [dispatch_eq watched hwatched, dispatchActs_eq watched hwatched, dispatch_eq run hrun, dispatchActs_eq run hrun]
        cases choice with
        | some chosen => exact (hpoised.withHost halike).serves effect first chosen.1 chosen.2
        | none =>
            rw [dispatchRulings_of_nobody watched hwatched] at hspares
            obtain ⟨hspares, hlater⟩ := List.forall_mem_cons.1 hspares
            refine ((hpoised.withHost halike).core hfronts effect hspares hlater ih).mono (rank_le ?_ 0)
            show watched.stack.height + 3 + _ ≤ _
            unfold reach
            omega

/-- Handling an effect behind an observer comes to what it comes to without. -/
theorem Poised.handle (hpoised : observer.Poised watched run) (hfronts : observer.Fronts fronted machine) (effect : Effect)
    (hspares : ∀ ruling ∈ fronted.handleRulings effect watched, ruling.spares observer.kinds = true) :
    observer.Comes machine (fronted.handle effect watched) (machine.handle effect run) (fronted.handleActs effect watched)
      (machine.handleActs effect run) (rank 0 (watched.stack.height + 3 + 2 * observer.reach effect 0) 0) := by
  obtain ⟨hverdict, halike⟩ := hpoised.alike.run (machine.registry.validate effect)
  rw [handle_eq_settled, handle_eq_settled]
  unfold attempt handleActs
  unfold handleRulings at hspares
  rw [hfronts.validate] at hspares ⊢
  revert hspares hverdict halike
  rcases watched.host.run (machine.registry.validate effect) with ⟨verdict, watchedLater⟩
  rcases run.host.run (machine.registry.validate effect) with ⟨_, later⟩
  rintro hspares ⟨⟩ halike
  have hlater := hpoised.withHost halike
  cases verdict with
  | some error =>
      obtain ⟨place, hleads, hplace⟩ := hlater.refused machine error
      exact .of_leads hleads rfl (hplace.trans_le (rank_le (by show watched.stack.height + 1 ≤ _; omega) 0))
  | none =>
      obtain ⟨ahead, place, hleads, hservices, hplace⟩ := observer.dispatches hfronts effect 0 _ _ hlater hspares
      rw [Nat.zero_sub] at hleads hservices
      refine ⟨ahead, place, hleads, ?_, hplace⟩
      simpa only [services_append, services_failureActs, List.append_nil] using hservices

end Observer
end EffectMachine
