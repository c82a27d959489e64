import EffectMachine.Lifecycle.Hook
import EffectMachine.Proofs.Acts.Strides

/-!
# Hooks that run together

Hooks that run together share one computation, which starts them from left to right and lets each go on when
its timer runs out.  Told apart by their places, the strides of that computation are those of every hook by
itself.

* `Hook.Goes` are the steps of one hook, up to where it waits or ends.
* `Hook.Together` says that some steps are those of several hooks, each of which has come so far;
  `Hook.Carried` that all of them were carried out, `Hook.Dropped` that the failure of one dropped the others,
  and `Hook.Sequence` that they were carried out one after another up to the first that failed.
* `Stops.together` is the main statement: unless the first failure drops the others, all hooks are carried
  out to their ends, each once, before the computation goes on with their failures.
-/

namespace EffectMachine

namespace Hook

/-- What a hook does in one step. -/
inductive Step where
  /-- It writes to the log. -/
  | log (entry : Entry)
  /-- It begins to wait, unless the delay is over at once. -/
  | pause (delay : Nat) (timer : Option TimerId)
  /-- Its timer has run out. -/
  | wake (timer : TimerId)

/-- The step of a hook that an act is, if it is one. -/
def stepOf? : Act → Option Step
  | .acted (.log entry) _ => some (.log entry)
  | .acted (.arm delay) timer => some (.pause delay timer)
  | .acted (.expired timers) index => some (.wake (timers.get index))
  | _ => none

/-- The steps of hooks among some acts. -/
def steps (acts : List Act) : List Step :=
  acts.filterMap stepOf?

@[simp] theorem steps_nil : steps [] = [] :=
  rfl

@[simp] theorem steps_append (acts more : List Act) : steps (acts ++ more) = steps acts ++ steps more :=
  List.filterMap_append

/-- The steps that take a hook to where it waits or ends. -/
inductive Goes : Hook → List Step → State → Prop
  | finish (failure : Option Cause) : Goes (.finish failure) [] (.ended failure)
  | log {entry : Entry} {rest : Hook} {steps : List Step} {state : State} (hrest : Goes rest steps state) :
      Goes (.log entry rest) (.log entry :: steps) state
  | noPause {delay : Nat} {rest : Hook} {steps : List Step} {state : State} (hrest : Goes rest steps state) :
      Goes (.pause delay rest) (.pause delay none :: steps) state
  | pause (delay : Nat) (timer : TimerId) (rest : Hook) :
      Goes (.pause delay rest) [.pause delay (some timer)] (.paused timer rest)
  | wake {delay : Nat} {timer : TimerId} {rest : Hook} {steps : List Step} {state : State}
      (hrest : Goes rest steps state) :
      Goes (.pause delay rest) (.pause delay (some timer) :: .wake timer :: steps) state

/-- A hook that waits goes on when its timer has run out. -/
theorem Goes.resume {hook rest : Hook} {steps more : List Step} {timer : TimerId} {state : State}
    (goes : Goes hook steps (.paused timer rest)) (hrest : Goes rest more state) :
    Goes hook (steps ++ .wake timer :: more) state := by
  generalize hpaused : State.paused timer rest = paused at goes
  induction goes with
  | finish failure => cases hpaused
  | log _ ih => exact .log (ih hpaused)
  | noPause _ ih => exact .noPause (ih hpaused)
  | pause delay timer rest =>
      cases hpaused
      exact .wake hrest
  | wake _ ih => exact .wake (ih hpaused)

/-- How often a hook still waits. -/
def State.pauses : State → Nat
  | .ended _ => 0
  | .paused _ rest => rest.pauses + 1

/-- A hook never waits more often than it says. -/
theorem Goes.pauses_le {hook : Hook} {steps : List Step} {state : State} (goes : Goes hook steps state) :
    state.pauses ≤ hook.pauses := by
  induction goes with
  | finish failure => exact Nat.le_refl _
  | log _ ih => exact ih
  | noPause _ ih => exact Nat.le_succ_of_le ih
  | pause delay timer rest => exact Nat.le_refl _
  | wake _ ih => exact Nat.le_succ_of_le ih

/-- The steps of one hook among those of several. -/
def own (labelled : List (Nat × Step)) (place : Nat) : List Step :=
  labelled.filterMap fun entry => if entry.1 = place then some entry.2 else none

theorem own_append (labelled more : List (Nat × Step)) (place : Nat) :
    own (labelled ++ more) place = own labelled place ++ own more place :=
  List.filterMap_append

theorem own_self (place : Nat) (steps : List Step) :
    own (steps.map fun step => (place, step)) place = steps := by
  simp [own, List.filterMap_map]

theorem own_other {place other : Nat} (hother : other ≠ place) (steps : List Step) :
    own (steps.map fun step => (other, step)) place = [] := by
  simp [own, List.filterMap_map, hother]

/-- No hook stands at a place that no step is labelled with. -/
theorem own_eq_nil {labelled : List (Nat × Step)} {place : Nat}
    (hplaces : ∀ entry ∈ labelled, entry.1 < place) : own labelled place = [] := by
  refine List.filterMap_eq_nil_iff.2 fun entry hmem => ?_
  have hless := hplaces entry hmem
  rw [if_neg (by omega)]

/-- Some steps are those of several hooks, each of which has come to a state: every step belongs to one of
them, and those that belong to one are steps that it goes. -/
def Together (hooks : List Hook) (steps : List Step) (states : List State) : Prop :=
  ∃ labelled : List (Nat × Step), labelled.map Prod.snd = steps ∧
    (∀ entry ∈ labelled, entry.1 < hooks.length) ∧ states.length = hooks.length ∧
    ∀ place (hplace : place < hooks.length) (hstate : place < states.length),
      Goes hooks[place] (own labelled place) states[place]

namespace Together

variable {hooks : List Hook} {steps : List Step} {states : List State}

/-- No hooks have done nothing. -/
theorem nil : Together [] [] [] :=
  ⟨[], rfl, List.forall_mem_nil _, rfl, fun place hplace => absurd hplace (Nat.not_lt_zero place)⟩

/-- One more hook is started. -/
theorem concat (together : Together hooks steps states) {hook : Hook} {more : List Step} {state : State}
    (goes : Goes hook more state) : Together (hooks ++ [hook]) (steps ++ more) (states ++ [state]) := by
  obtain ⟨labelled, rfl, hplaces, hlength, hgoes⟩ := together
  refine ⟨labelled ++ more.map fun step => (hooks.length, step), ?_, ?_, ?_, ?_⟩
  · simp [Function.comp_def]
  · intro entry hmem
    rw [List.length_append]
    rcases List.mem_append.1 hmem with hearlier | hlast
    · exact Nat.lt_add_right _ (hplaces entry hearlier)
    · obtain ⟨step, -, rfl⟩ := List.mem_map.1 hlast
      simp
  · simp [hlength]
  · intro place hplace hstate
    rw [own_append]
    by_cases hlast : place = hooks.length
    · subst hlast
      have hnone : own labelled hooks.length = [] := own_eq_nil hplaces
      rw [hnone, own_self]
      simpa [← hlength] using goes
    · have hearlier : place < hooks.length := by
        rw [List.length_append, List.length_singleton] at hplace
        omega
      rw [own_other (Ne.symm hlast), List.append_nil, List.getElem_append_left hearlier,
        List.getElem_append_left (by omega)]
      exact hgoes place hearlier (by omega)

/-- A hook that waits goes on. -/
theorem resume (together : Together hooks steps states) {place : Nat} {timer : TimerId} {rest : Hook}
    {more : List Step} {state : State} (hwaits : states[place]? = some (.paused timer rest))
    (goes : Goes rest more state) :
    Together hooks (steps ++ .wake timer :: more) (states.set place state) := by
  obtain ⟨labelled, rfl, hplaces, hlength, hgoes⟩ := together
  obtain ⟨hplace, hstate⟩ := List.getElem?_eq_some_iff.1 hwaits
  refine ⟨labelled ++ (Step.wake timer :: more).map fun step => (place, step), ?_, ?_, ?_, ?_⟩
  · simp [Function.comp_def]
  · intro entry hmem
    rcases List.mem_append.1 hmem with hearlier | hlast
    · exact hplaces entry hearlier
    · obtain ⟨step, -, rfl⟩ := List.mem_map.1 hlast
      exact hlength ▸ hplace
  · simp [hlength]
  · intro other hother hset
    rw [own_append]
    by_cases hsame : place = other
    · subst hsame
      have hbefore := hgoes place hother hplace
      rw [hstate] at hbefore
      rw [own_self, List.getElem_set_self]
      exact hbefore.resume goes
    · rw [own_other hsame, List.append_nil, List.getElem_set_ne hsame]
      exact hgoes other hother (by simpa using hset)

end Together

/-- All hooks were carried out to their ends, each once, with these failures. -/
def Carried (hooks : List Hook) (steps : List Step) (failures : List (Option Cause)) : Prop :=
  Together hooks steps (failures.map State.ended)

/-- One of the hooks that were started has failed, with this cause, and that dropped all others: of those that
were started none has failed before, and those after them never start. -/
def Dropped (hooks : List Hook) (steps : List Step) (cause : Cause) : Prop :=
  ∃ started states, started <+: hooks ∧ Together started steps states ∧ states.filterMap State.failure? = [cause]

/-- Hooks were carried out one after another, up to the first that failed. -/
inductive Sequence : List Hook → List Step → Option Cause → Prop
  | nil : Sequence [] [] none
  | failed {hook : Hook} {steps : List Step} {cause : Cause} (hooks : List Hook)
      (hfailed : Goes hook steps (.ended (some cause))) : Sequence (hook :: hooks) steps (some cause)
  | next {hook : Hook} {hooks : List Hook} {steps more : List Step} {failure : Option Cause}
      (hended : Goes hook steps (.ended none)) (hrest : Sequence hooks more failure) :
      Sequence (hook :: hooks) (steps ++ more) failure

/-- The failure that a hook ends with. -/
def failure? : Hook → Option Cause
  | .finish failure => failure
  | .log _ rest | .pause _ rest => rest.failure?

/-- A hook ends with its own failure, however it got there. -/
theorem Goes.failure?_eq {hook : Hook} {steps : List Step} {failure : Option Cause}
    (goes : Goes hook steps (.ended failure)) : hook.failure? = failure := by
  generalize hended : State.ended failure = state at goes
  induction goes with
  | finish own =>
      cases hended
      rfl
  | pause => cases hended
  | log _ ih | noPause _ ih | wake _ ih => exact ih hended

/-- Hooks that were carried out ended with their own failures. -/
theorem Carried.eq_map {hooks : List Hook} {steps : List Step} {failures : List (Option Cause)}
    (carried : Carried hooks steps failures) : failures = hooks.map failure? := by
  obtain ⟨labelled, -, -, hlength, hgoes⟩ := carried
  rw [List.length_map] at hlength
  refine List.ext_getElem (by simp [hlength]) fun place hfailure hhook => ?_
  have hended := hgoes place (by simpa using hhook) (by simpa using hfailure)
  rw [List.getElem_map] at hended ⊢
  exact hended.failure?_eq.symm

/-- None of the hooks that were carried out failed, if their failures say so. -/
theorem Carried.filterMap_eq_nil_iff {hooks : List Hook} {steps : List Step} {failures : List (Option Cause)}
    (carried : Carried hooks steps failures) : failures.filterMap id = [] ↔ ∀ hook ∈ hooks, hook.failure? = none := by
  rw [carried.eq_map, List.filterMap_map, List.filterMap_eq_nil_iff]
  rfl

/-- Hooks that are carried out one after another end with the first of their failures. -/
theorem Sequence.eq_findSome? {hooks : List Hook} {steps : List Step} {failure : Option Cause}
    (sequence : Sequence hooks steps failure) : failure = hooks.findSome? failure? := by
  induction sequence with
  | nil => rfl
  | failed hooks hfailed => rw [List.findSome?_cons, hfailed.failure?_eq]
  | next hended _ ih => rw [List.findSome?_cons, hended.failure?_eq, ih]

/-- How often several hooks still wait. -/
def stillPauses : List State → Nat
  | [] => 0
  | state :: states => state.pauses + stillPauses states

/-- Hooks that have been started wait no more often than they say. -/
theorem Together.pauses_le {hooks : List Hook} {steps : List Step} {states : List State}
    (together : Together hooks steps states) : stillPauses states ≤ totalPauses hooks := by
  obtain ⟨labelled, -, -, hlength, hgoes⟩ := together
  have hle : ∀ place (hplace : place < hooks.length) (hstate : place < states.length),
      states[place].pauses ≤ hooks[place].pauses := fun place hplace hstate =>
    (hgoes place hplace hstate).pauses_le
  clear hgoes
  induction hooks generalizing states with
  | nil =>
      rw [List.eq_nil_of_length_eq_zero hlength]
      exact Nat.le_refl _
  | cons hook hooks ih =>
      cases states with
      | nil => exact Nat.zero_le _
      | cons state states =>
          have hfirst : state.pauses ≤ hook.pauses := hle 0 (by simp) (by simp)
          have hrest : stillPauses states ≤ totalPauses hooks :=
            ih (by simpa using hlength) fun place hplace hstate =>
              hle (place + 1) (by simpa using hplace) (by simpa using hstate)
          rw [stillPauses, totalPauses]
          omega

/-- What is known of a hook that waits. -/
theorem paused_of_mem_waiting {states : List State} {place : Nat} {timer : TimerId} {rest : Hook}
    (hmem : (place, timer, rest) ∈ waiting states) : states[place]? = some (.paused timer rest) := by
  obtain ⟨⟨state, other⟩, hentry, hpaused⟩ := List.mem_filterMap.1 hmem
  obtain ⟨paused, hstate, hsame⟩ := Option.map_eq_some_iff.1 hpaused
  obtain ⟨rfl, rfl⟩ := Prod.mk.inj hsame
  rw [List.mem_zipIdx_iff_getElem?] at hentry
  cases state with
  | ended failure => cases hstate
  | paused own hook =>
      cases hstate
      exact hentry

/-- Hooks none of which waits have ended. -/
theorem eq_map_ended {states : List State} (hnone : timers states = []) :
    states = (states.map State.failure?).map State.ended := by
  have hwaiting : waiting states = [] := List.map_eq_nil_iff.1 hnone
  refine List.ext_getElem? fun place => ?_
  cases hstate : states[place]? with
  | none => simp [hstate]
  | some state =>
      cases state with
      | ended failure => simp [hstate, State.failure?]
      | paused timer rest =>
          have hmem : (State.paused timer rest, place) ∈ states.zipIdx :=
            List.mem_zipIdx_iff_getElem?.2 hstate
          have hnot := List.filterMap_eq_nil_iff.1 hwaiting _ hmem
          cases hnot

/-- A hook that goes on waits less often than before. -/
theorem stillPauses_set {states : List State} {place : Nat} (state : State) {before : State}
    (hbefore : states[place]? = some before) :
    stillPauses (states.set place state) + before.pauses = stillPauses states + state.pauses := by
  induction states generalizing place with
  | nil => cases hbefore
  | cons first states ih =>
      cases place with
      | zero =>
          cases hbefore
          simp only [stillPauses, List.set_cons_zero]
          omega
      | succ place =>
          have hrest := @ih place hbefore
          simp only [stillPauses, List.set_cons_succ]
          omega

/-- Hooks that never wait again have ended. -/
theorem timers_eq_nil {states : List State} (hnone : stillPauses states = 0) : timers states = [] := by
  refine List.map_eq_nil_iff.2 (List.eq_nil_iff_forall_not_mem.2 ?_)
  rintro ⟨place, timer, rest⟩ hmem
  have hended := stillPauses_set (.ended none) (paused_of_mem_waiting hmem)
  have hpositive : 0 < (State.paused timer rest).pauses := Nat.succ_pos _
  have hover : (State.ended none).pauses = 0 := rfl
  omega

/-- One of the hooks that wait goes on until it waits or ends. -/
def wakeUp (eager : Bool) (next : List (Option Cause) → Body) (pauses : Nat) (states : List State)
    (index : Fin (timers states).length) : Body :=
  match (waiting states)[index.val]? with
  | none => next (states.map State.failure?)
  | some (place, _, hook) =>
    hook.untilPause fun state =>
      if eager && state.failure?.isSome then stop next (states.set place state)
      else settleEach eager next pauses (states.set place state)

/-- Hooks some of which wait go on when a timer has run out. -/
theorem settleEach_succ {eager : Bool} {next : List (Option Cause) → Body} {pauses : Nat} {states : List State}
    (hsome : timers states ≠ []) :
    settleEach eager next (pauses + 1) states = .act (.expired (timers states)) (wakeUp eager next pauses states) := by
  unfold settleEach
  rw [if_neg (by simpa using hsome)]
  rfl

/-- The timer that has run out is that of a hook that waits. -/
theorem exists_paused {states : List State} (index : Fin (timers states).length) :
    ∃ place rest, (waiting states)[index.val]? = some (place, (timers states).get index, rest) ∧
      states[place]? = some (.paused ((timers states).get index) rest) := by
  have hlength : (timers states).length = (waiting states).length := List.length_map _
  have hless : index.val < (waiting states).length := hlength ▸ index.isLt
  obtain ⟨⟨place, timer, rest⟩, hentry⟩ : ∃ entry, (waiting states)[index.val] = entry := ⟨_, rfl⟩
  have hwoken : (timers states).get index = timer := by
    have htimer : (timers states)[index.val]? = some timer := by
      show ((waiting states).map fun entry => entry.2.1)[index.val]? = some timer
      rw [List.getElem?_map, List.getElem?_eq_getElem hless, hentry]
      rfl
    exact (List.getElem?_eq_some_iff.1 htimer).2
  have hfound : (waiting states)[index.val]? = some (place, timer, rest) := by
    rw [List.getElem?_eq_getElem hless, hentry]
  rw [hwoken]
  exact ⟨place, rest, hfound, paused_of_mem_waiting (List.mem_of_getElem? hfound)⟩

/-- A hook whose failure would have dropped the others has not failed. -/
theorem failure?_eq_none {eager : Bool} {state : State} (hgoing : ¬(eager && state.failure?.isSome) = true)
    (heager : eager = true) : state.failure? = none := by
  simpa [heager] using hgoing

/-- A hook that waits has not failed yet: the failures of hooks none of which has failed are those of the one that
goes on. -/
theorem failures_set {states : List State} {place : Nat} {timer : TimerId} {rest : Hook} (state : State)
    (hwaits : states[place]? = some (.paused timer rest)) (hnone : states.filterMap State.failure? = []) :
    (states.set place state).filterMap State.failure? = state.failure?.toList := by
  induction states generalizing place with
  | nil => cases hwaits
  | cons first states ih =>
      rw [List.filterMap_eq_nil_iff] at hnone
      have hfirst := hnone first List.mem_cons_self
      have hothers : states.filterMap State.failure? = [] :=
        List.filterMap_eq_nil_iff.2 fun other hmem => hnone other (List.mem_cons_of_mem _ hmem)
      cases place with
      | zero => cases hstate : state.failure? <;> simp [hothers, hstate]
      | succ place =>
          rw [List.set_cons_succ, List.filterMap_cons, hfirst]
          exact ih hwaits hothers

end Hook

/-! ## The strides of the computation that runs them -/

namespace Stops

open Hook

variable {acts : List Act}

/-- A hook that is let run waits or ends before anything else happens. -/
theorem untilPause {next : State → Body} {hook : Hook} (stops : Stops (hook.untilPause next) acts) :
    ∃ first rest state, acts = first ++ rest ∧ Works (hook.untilPause next) first (next state) ∧
      Goes hook (steps first) state ∧ Stops (next state) rest := by
  induction hook generalizing acts with
  | finish failure => exact ⟨[], acts, .ended failure, rfl, .here _, .finish failure, stops⟩
  | log entry hook ih =>
      cases stops with
      | act rest =>
          obtain ⟨first, later, state, rfl, hworks, hgoes, hstops⟩ := ih rest
          exact ⟨_ :: first, later, state, rfl, .act hworks, .log hgoes, hstops⟩
  | pause delay hook ih =>
      cases stops with
      | @act _ _ reply _ rest =>
          cases reply with
          | none =>
              obtain ⟨first, later, state, rfl, hworks, hgoes, hstops⟩ := ih rest
              exact ⟨_ :: first, later, state, rfl, .act hworks, .noPause hgoes, hstops⟩
          | some timer => exact ⟨[_], _, .paused timer hook, rfl, .act (.here _), .pause delay timer hook, rest⟩

/-- Hooks that are dropped leave their failures behind. -/
theorem stop {next : List (Option Cause) → Body} {states : List State} (stops : Stops (Hook.stop next states) acts) :
    ∃ first rest, acts = first ++ rest ∧ Works (Hook.stop next states) first (next (states.map State.failure?)) ∧
      steps first = [] ∧ Stops (next (states.map State.failure?)) rest := by
  cases stops with
  | act rest => exact ⟨[_], _, rfl, .act (.here _), rfl, rest⟩

/-- A body that runs hooks together gets to where it goes on with their failures: either all hooks were carried
out, or one of them has failed and the others were dropped.  With `eager` only the latter leaves a failure. -/
def Settles (eager : Bool) (body : Body) (next : List (Option Cause) → Body) (hooks : List Hook)
    (done : List Step) (acts : List Act) : Prop :=
  ∃ first rest failures, acts = first ++ rest ∧ Works body first (next failures) ∧ Stops (next failures) rest ∧
    (Carried hooks (done ++ steps first) failures ∧ (eager = true → failures.filterMap id = []) ∨
      eager = true ∧ ∃ cause, failures.filterMap id = [cause] ∧ Dropped hooks (done ++ steps first) cause)

/-- A body that gets to one that settles its hooks settles them. -/
theorem Settles.of_works {eager : Bool} {body middle : Body} {next : List (Option Cause) → Body} {hooks : List Hook}
    {done : List Step} {first more : List Act} (hfirst : Works body first middle)
    (settles : Settles eager middle next hooks (done ++ steps first) more) :
    Settles eager body next hooks done (first ++ more) := by
  obtain ⟨second, rest, failures, rfl, hworks, hstops, hended⟩ := settles
  refine ⟨first ++ second, rest, failures, (List.append_assoc ..).symm, hfirst.trans hworks, hstops, ?_⟩
  rw [steps_append, ← List.append_assoc]
  exact hended

/-- Hooks that are dropped because one has failed are settled. -/
theorem Settles.of_stop {next : List (Option Cause) → Body} {hooks started : List Hook} {done : List Step}
    {states : List State} {cause : Cause} (stops : Stops (Hook.stop next states) acts) (hstarted : started <+: hooks)
    (together : Hook.Together started done states) (hfailed : states.filterMap State.failure? = [cause]) :
    Settles true (Hook.stop next states) next hooks done acts := by
  obtain ⟨first, rest, rfl, hworks, hnone, hstops⟩ := stops.stop
  refine ⟨first, rest, _, rfl, hworks, hstops, .inr ⟨rfl, cause, ?_, started, states, hstarted, ?_, hfailed⟩⟩
  · rw [List.filterMap_map]
    exact hfailed
  · rw [hnone, List.append_nil]
    exact together

/-- Hooks none of which waits have been carried out. -/
theorem Settles.of_ended {eager : Bool} {next : List (Option Cause) → Body} {hooks : List Hook} {done : List Step}
    {states : List State} (stops : Stops (next (states.map State.failure?)) acts)
    (together : Hook.Together hooks done states) (hnone : timers states = [])
    (hwell : eager = true → states.filterMap State.failure? = []) :
    Settles eager (next (states.map State.failure?)) next hooks done acts := by
  refine ⟨[], acts, _, rfl, .here _, stops, .inl ⟨?_, fun heager => ?_⟩⟩
  · rw [steps_nil, List.append_nil, Carried, ← eq_map_ended hnone]
    exact together
  · rw [List.filterMap_map]
    exact hwell heager

/-- Hooks that have started are let go on until they are settled. -/
theorem settleEach {eager : Bool} {next : List (Option Cause) → Body} {hooks : List Hook} {pauses : Nat}
    {states : List State} {done : List Step} (stops : Stops (Hook.settleEach eager next pauses states) acts)
    (together : Hook.Together hooks done states) (hpauses : stillPauses states ≤ pauses)
    (hwell : eager = true → states.filterMap State.failure? = []) :
    Settles eager (Hook.settleEach eager next pauses states) next hooks done acts := by
  induction pauses generalizing states done acts with
  | zero => exact .of_ended stops together (timers_eq_nil (Nat.le_zero.1 hpauses)) hwell
  | succ pauses ih =>
      by_cases hnone : timers states = []
      · rw [Hook.settleEach, if_pos (by simp [hnone])] at stops ⊢
        exact .of_ended stops together hnone hwell
      rw [settleEach_succ hnone] at stops ⊢
      cases stops with
      | @act _ _ index later rest =>
          obtain ⟨place, hook, hfound, hwaits⟩ := exists_paused index
          have hbody : wakeUp eager next pauses states index = hook.untilPause fun state =>
              if eager && state.failure?.isSome then Hook.stop next (states.set place state)
              else Hook.settleEach eager next pauses (states.set place state) := by
            simp only [wakeUp, hfound]
          rw [hbody] at rest
          obtain ⟨first, more, state, rfl, hworks, hgoes, hstops⟩ := rest.untilPause
          rw [← hbody] at hworks
          have htogether := together.resume hwaits hgoes
          have hfewer : stillPauses (states.set place state) ≤ pauses := by
            have hset := stillPauses_set state hwaits
            have hle := hgoes.pauses_le
            have hpaused : (State.paused ((timers states).get index) hook).pauses = hook.pauses + 1 := rfl
            omega
          have hfailures := fun heager => failures_set state hwaits (hwell heager)
          refine .of_works (.act hworks) ?_
          by_cases hfailed : (eager && state.failure?.isSome) = true
          · rw [if_pos hfailed] at hstops ⊢
            simp only [Bool.and_eq_true] at hfailed
            obtain ⟨rfl, hfailed⟩ := hfailed
            obtain ⟨cause, hcause⟩ := Option.isSome_iff_exists.1 hfailed
            rw [hcause] at hfailures
            exact .of_stop hstops List.prefix_rfl htogether (hfailures rfl)
          · rw [if_neg hfailed] at hstops ⊢
            refine ih hstops htogether hfewer fun heager => ?_
            rw [hfailures heager, failure?_eq_none hfailed heager]
            rfl

/-- Hooks are started and let go on until they are settled. -/
theorem startEach {eager : Bool} {next : List (Option Cause) → Body} {pauses : Nat} {hooks earlier : List Hook}
    {started : List State} {done : List Step}
    (stops : Stops (Hook.startEach eager (Hook.settleEach eager next pauses) next started hooks) acts)
    (together : Hook.Together earlier done started) (hpauses : totalPauses (earlier ++ hooks) ≤ pauses)
    (hwell : eager = true → started.filterMap State.failure? = []) :
    Settles eager (Hook.startEach eager (Hook.settleEach eager next pauses) next started hooks) next
      (earlier ++ hooks) done acts := by
  induction hooks generalizing earlier started done acts with
  | nil =>
      rw [List.append_nil] at hpauses ⊢
      exact settleEach stops together (Nat.le_trans together.pauses_le hpauses) hwell
  | cons hook hooks ih =>
      unfold Hook.startEach at stops ⊢
      obtain ⟨first, more, state, rfl, hworks, hgoes, hstops⟩ := stops.untilPause
      refine .of_works hworks ?_
      have htogether := together.concat hgoes
      have hfailures (heager : eager = true) :
          (started ++ [state]).filterMap State.failure? = state.failure?.toList := by
        rw [List.filterMap_append, hwell heager]
        cases hstate : state.failure? <;> simp [hstate]
      rw [List.append_cons earlier] at hpauses ⊢
      by_cases hfailed : (eager && state.failure?.isSome) = true
      · rw [if_pos hfailed] at hstops ⊢
        simp only [Bool.and_eq_true] at hfailed
        obtain ⟨rfl, hfailed⟩ := hfailed
        obtain ⟨cause, hcause⟩ := Option.isSome_iff_exists.1 hfailed
        rw [hcause] at hfailures
        exact .of_stop hstops (List.prefix_append _ _) htogether (hfailures rfl)
      · rw [if_neg hfailed] at hstops ⊢
        refine ih hstops htogether hpauses fun heager => ?_
        rw [hfailures heager, failure?_eq_none hfailed heager, Option.toList_none]

/-- Unless the first failure drops the others, hooks that run together are all carried out to their ends, each
once, and the computation goes on with their failures. -/
theorem together {eager : Bool} {next : List (Option Cause) → Body} {hooks : List Hook}
    (stops : Stops (Hook.together eager next hooks) acts) :
    Settles eager (Hook.together eager next hooks) next hooks [] acts :=
  startEach stops Hook.Together.nil (Nat.le_refl _) fun _ => rfl

/-- A hook that runs by itself is carried out to its end. -/
theorem alone {next : Option Cause → Body} {hook : Hook} (stops : Stops (hook.alone next) acts) :
    ∃ first rest failure, acts = first ++ rest ∧ Works (hook.alone next) first (next failure) ∧
      Goes hook (steps first) (.ended failure) ∧ Stops (next failure) rest := by
  induction hook generalizing acts with
  | finish failure => exact ⟨[], acts, failure, rfl, .here _, .finish failure, stops⟩
  | log entry hook ih =>
      cases stops with
      | act rest =>
          obtain ⟨first, later, failure, rfl, hworks, hgoes, hstops⟩ := ih rest
          exact ⟨_ :: first, later, failure, rfl, .act hworks, .log hgoes, hstops⟩
  | pause delay hook ih =>
      cases stops with
      | @act _ _ reply _ rest =>
          cases reply with
          | none =>
              obtain ⟨first, later, failure, rfl, hworks, hgoes, hstops⟩ := ih rest
              exact ⟨_ :: first, later, failure, rfl, .act hworks, .noPause hgoes, hstops⟩
          | some timer =>
              cases rest with
              | @act _ _ index _ rest =>
                  obtain ⟨first, later, failure, rfl, hworks, hgoes, hstops⟩ := ih rest
                  refine ⟨_ :: _ :: first, later, failure, rfl, .act (.act hworks), ?_, hstops⟩
                  -- there is only one timer that can have run out
                  have hindex : index = (0 : Fin 1) := Subsingleton.elim (α := Fin 1) _ _
                  subst hindex
                  exact .wake hgoes

/-- Hooks that run one after another are run until the first that fails. -/
theorem inSequence {next : Option Cause → Body} {hooks : List Hook} (stops : Stops (Hook.inSequence next hooks) acts) :
    ∃ first rest failure, acts = first ++ rest ∧ Works (Hook.inSequence next hooks) first (next failure) ∧
      Sequence hooks (steps first) failure ∧ Stops (next failure) rest := by
  induction hooks generalizing acts with
  | nil => exact ⟨[], acts, none, rfl, .here _, .nil, stops⟩
  | cons hook hooks ih =>
      obtain ⟨first, rest, failure, rfl, hworks, hgoes, hstops⟩ := stops.alone
      cases failure with
      | some cause => exact ⟨first, rest, some cause, rfl, hworks, .failed hooks hgoes, hstops⟩
      | none =>
          obtain ⟨second, later, failure, rfl, hmore, hsequence, hlast⟩ := ih hstops
          refine ⟨first ++ second, later, failure, (List.append_assoc ..).symm, hworks.trans hmore, ?_, hlast⟩
          rw [steps_append]
          exact .next hgoes hsequence

end Stops
end EffectMachine
