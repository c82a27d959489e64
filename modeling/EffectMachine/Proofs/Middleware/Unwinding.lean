import EffectMachine.Proofs.Middleware.Dispatching

/-!
# Frames that leave behind an observer

Finished frames leave the stack, and hand their outcomes down to the frames below.  A frame of an observer keeps the
outcome for a while, during which the other run is ahead.

* `Machine.unwind_of_defers` and `Machine.exists_unwind` say what unwinding begins with.
* `Observer.unwind` says what becomes of two runs whose top frames have finished, one of them behind an observer.
-/

namespace EffectMachine

namespace Machine

variable {machine : Machine} {run : Run} {parent : Frame} {rest : List Frame}

/-- Of the stack itself, unwinding keeps what is no frame. -/
theorem unwindFrom_withFrames (machine : Machine) (stack : Stack) (other : Frame) (others : List Frame) (host : Host) (top : Frame)
    (below : List Frame) :
    machine.unwindFrom { stack with top := other, below := others } host top below = machine.unwindFrom stack host top below ∧
      machine.unwindActsFrom { stack with top := other, below := others } host top below =
        machine.unwindActsFrom stack host top below ∧
      machine.unwindRulingsFrom { stack with top := other, below := others } host top below =
        machine.unwindRulingsFrom stack host top below := by
  induction below generalizing host top with
  | nil => exact ⟨rfl, rfl, rfl⟩
  | cons parent rest ih =>
      unfold unwindFrom unwindActsFrom unwindRulingsFrom
      cases top.defers with
      | cons effect defers => exact ⟨rfl, rfl, rfl⟩
      | nil => simp only [ih, and_self]

/-- The sentinel stays. -/
theorem unwind_of_sentinel (machine : Machine) (hbelow : run.stack.below = []) :
    machine.unwind run = run ∧ machine.unwindActs run = [] := by
  obtain ⟨⟨context, signal, top, below, canceled⟩, host⟩ := run
  obtain rfl : below = [] := hbelow
  exact ⟨rfl, rfl⟩

/-- A finished frame first runs its deferred effects. -/
theorem unwind_of_defers (machine : Machine) {effect : Effect} {defers : List Effect} (hbelow : run.stack.below = parent :: rest)
    (hdefers : run.stack.top.defers = effect :: defers) :
    machine.unwind run = machine.handle effect
        ((run.withTop fun frame => { frame with defers }).emit (.deferredStarted effect.kind)) ∧
      machine.unwindActs run = .started effect :: machine.handleActs effect
        ((run.withTop fun frame => { frame with defers }).emit (.deferredStarted effect.kind)) ∧
      machine.unwindRulings run = machine.handleRulings effect
        ((run.withTop fun frame => { frame with defers }).emit (.deferredStarted effect.kind)) := by
  unfold unwind unwindActs unwindRulings
  rw [hbelow]
  unfold unwindFrom unwindActsFrom unwindRulingsFrom
  simp only [hdefers, ← hbelow]
  exact ⟨rfl, rfl, rfl⟩

/-- What becomes of a run whose top frame leaves with an outcome. -/
def leaving (run : Run) (parent : Frame) (rest : List Frame) (events : Array Event) : Run :=
  ({ stack := { run.stack with top := parent, below := rest }, host := { run.host with events } } : Run).absorbTop
    run.stack.top.result

/-- A finished frame that has run all its deferred effects leaves; so does the one below if it has finished, too. -/
theorem exists_unwind (machine : Machine) (hbelow : run.stack.below = parent :: rest) (hdefers : run.stack.top.defers = []) :
    ∃ events,
      (parent.isFinished = false → machine.unwind run = leaving run parent rest events ∧ machine.unwindActs run = [.left] ∧
        machine.unwindRulings run = []) ∧
      (parent.isFinished = true → machine.unwind run = machine.unwind (leaving run parent rest events) ∧
        machine.unwindActs run = .left :: machine.unwindActs (leaving run parent rest events) ∧
        machine.unwindRulings run = machine.unwindRulings (leaving run parent rest events)) := by
  have hsame (events : Array Event) (frame : Frame) :=
    machine.unwindFrom_withFrames run.stack frame rest { run.host with events } frame rest
  have hbegins : machine.unwind run = machine.unwindFrom run.stack run.host run.stack.top (parent :: rest) ∧
      machine.unwindActs run = machine.unwindActsFrom run.stack run.host run.stack.top (parent :: rest) ∧
      machine.unwindRulings run = machine.unwindRulingsFrom run.stack run.host run.stack.top (parent :: rest) := by
    rw [← hbelow]
    exact ⟨rfl, rfl, rfl⟩
  simp only [hbegins]
  unfold unwindFrom unwindActsFrom unwindRulingsFrom
  simp only [hdefers]
  cases hfinished : parent.isFinished with
  | false =>
      refine ⟨run.host.events, fun _ => ⟨?_, rfl, rfl⟩, fun hcontra => by cases hcontra⟩
      simp only [leaving, Run.absorbTop, Run.withTop, Stack.withTop, Frame.absorb_of_going _ hfinished]
      rfl
  | true =>
      -- the report of a failure that comes too late does not count
      have hgoesOn (events : Array Event) (frame : Frame) (habsorbed : parent.absorb run.stack.top.result = frame) :
          machine.unwindFrom run.stack { run.host with events } frame rest = machine.unwind (leaving run parent rest events) ∧
            Act.left :: machine.unwindActsFrom run.stack { run.host with events } frame rest =
              .left :: machine.unwindActs (leaving run parent rest events) ∧
            machine.unwindRulingsFrom run.stack { run.host with events } frame rest =
              machine.unwindRulings (leaving run parent rest events) := by
        obtain ⟨hunwind, hacts, hrulings⟩ := hsame events frame
        rw [← hunwind, ← hacts, ← hrulings, ← habsorbed]
        exact ⟨rfl, rfl, rfl⟩
      simp only [if_true]
      cases hresult : run.stack.top.result with
      | ok value =>
          refine ⟨run.host.events, fun hcontra => absurd hcontra (by simp), fun _ => hgoesOn _ parent ?_⟩
          simp [Frame.absorb, hresult, hfinished]
      | error error =>
          cases hparent : parent.result with
          | ok value =>
              refine ⟨run.host.events, fun hcontra => absurd hcontra (by simp),
                fun _ => hgoesOn _ { parent with result := .error error } ?_⟩
              simp [Frame.absorb, hresult, hfinished, hparent]
          | error existing =>
              refine ⟨(run.host.emit (.deferredFailed error existing)).events, fun hcontra => absurd hcontra (by simp),
                fun _ => hgoesOn _ parent ?_⟩
              simp [Frame.absorb, hresult, hfinished, hparent]

end Machine

namespace Observer

open Middleware Machine

variable {observer : Observer} {fronted machine : Machine}

/-- Both finished frames run their next deferred effect. -/
theorem unwind_deferred (hfronts : observer.Fronts fronted machine) {watched run : Run}
    (hcovers : observer.Covers watched.stack run.stack) (halike : observer.Alike watched.host run.host)
    (hother : owns observer.kinds watched.stack.top = false) (hfinished : watched.stack.top.isFinished = true)
    (hidle : ∀ body, watched.stack.top.progress ≠ .running body) (habove : watched.stack.below ≠ []) {effect : Effect}
    {defers : List Effect} (hdefers : watched.stack.top.defers = effect :: defers)
    (hspares : ∀ ruling ∈ fronted.unwindRulings watched, ruling.spares observer.kinds = true) :
    observer.Comes machine (fronted.unwind watched) (machine.unwind run) (fronted.unwindActs watched)
      (machine.unwindActs run) (rank 1 watched.stack.height 0) := by
  obtain ⟨parent, rest, hbelow⟩ := List.exists_cons_of_ne_nil habove
  obtain ⟨frame, below, hstack⟩ := List.exists_cons_of_ne_nil (mt (hcovers.below_eq_nil_iff hother).1 habove)
  have hplain : run.stack.top.defers = effect :: defers := by
    rw [(hcovers.top_and_below hother).1]
    exact hdefers
  obtain ⟨hwatched, hwatchedActs, hwatchedRulings⟩ := fronted.unwind_of_defers hbelow hdefers
  obtain ⟨hrun, hacts, -⟩ := machine.unwind_of_defers hstack hplain
  rw [hwatchedRulings] at hspares
  rw [hwatched, hwatchedActs, hrun, hacts]
  have hstarted := hcovers.withTop (fun frame => { frame with defers }) rfl (fun _ => rfl) hother rfl
  have hpoised : observer.Poised ((watched.withTop fun frame => { frame with defers }).emit (.deferredStarted effect.kind))
      ((run.withTop fun frame => { frame with defers }).emit (.deferredStarted effect.kind)) :=
    ⟨hstarted, halike.emit _ _, fun howns => absurd (hother.symm.trans howns) Bool.false_ne_true,
      fun hgoing => absurd (hgoing.symm.trans hfinished) Bool.false_ne_true, hidle⟩
  exact ((hpoised.handle hfronts effect hspares).after [.started effect] [.started effect] rfl).mono
    (le_of_lt (rank_lt.2 (.inl Nat.one_pos)))

/-- Unwinding behind an observer comes to what it comes to without. -/
theorem unwind (hfronts : observer.Fronts fronted machine) {watched run : Run}
    (hcovers : observer.Covers watched.stack run.stack) (halike : observer.Alike watched.host run.host)
    (hother : owns observer.kinds watched.stack.top = false) (hfinished : watched.stack.top.isFinished = true)
    (hspares : ∀ ruling ∈ fronted.unwindRulings watched, ruling.spares observer.kinds = true) :
    observer.Comes machine (fronted.unwind watched) (machine.unwind run) (fronted.unwindActs watched)
      (machine.unwindActs run) (rank 1 watched.stack.height 0) := by
  have hidle (body : Body) : watched.stack.top.progress ≠ .running body := by
    intro hrunning
    simp [Frame.isFinished, hrunning] at hfinished
  induction hbelow : watched.stack.below generalizing watched run with
  | nil =>
      obtain ⟨hwatched, hwatchedActs⟩ := fronted.unwind_of_sentinel hbelow
      obtain ⟨hrun, hacts⟩ := machine.unwind_of_sentinel ((hcovers.below_eq_nil_iff hother).2 hbelow)
      rw [hwatched, hwatchedActs, hrun, hacts]
      exact .of_leads (.rests hcovers ⟨hother, fun body hrunning => absurd hrunning (hidle body)⟩ halike) rfl
        (rank_lt.2 (.inl Nat.one_pos))
  | cons parent rest ih =>
      have habove : watched.stack.below ≠ [] := by simp [hbelow]
      cases hdefers : watched.stack.top.defers with
      | cons effect defers => exact unwind_deferred hfronts hcovers halike hother hfinished hidle habove hdefers hspares
      | nil =>
          obtain ⟨frame, below, hstack⟩ := List.exists_cons_of_ne_nil (mt (hcovers.below_eq_nil_iff hother).1 habove)
          have htop := (hcovers.top_and_below hother).1
          have hplain : run.stack.top.defers = [] := by rw [htop]; exact hdefers
          have hresult : run.stack.top.result = watched.stack.top.result := by rw [htop]; rfl
          obtain ⟨watchedEvents, hwatchedStays, hwatchedPasses⟩ := fronted.exists_unwind hbelow hdefers
          obtain ⟨events, hstays, hpasses⟩ := machine.exists_unwind hstack hplain
          have hpoised := Poised.of_pop hcovers (halike.withEvents watchedEvents events) hbelow hother hstack
          have hheight : watched.stack.height = rest.length + 1 := by simp [Stack.height, hbelow]
          unfold leaving at hstays hpasses hwatchedStays hwatchedPasses
          rw [hresult] at hstays hpasses
          cases hparent : parent.isFinished with
          | true =>
              -- the frame below leaves, too, on both stacks
              have hnext : owns observer.kinds parent = false := hpoised.other_of_isFinished hparent
              obtain ⟨hwatched, hwatchedActs, hwatchedRulings⟩ := hwatchedPasses hparent
              obtain ⟨hrun, hacts, -⟩ := hpasses (hpoised.isFinished_top hparent)
              rw [hwatchedRulings] at hspares
              rw [hwatched, hwatchedActs, hrun, hacts]
              refine ((ih (hpoised.covers_absorbTop hnext _) hpoised.alike ((owns_absorb _ _).trans hnext)
                ((Frame.isFinished_absorb _ _).trans hparent) hspares ?_ rfl).after [.left] [.left] rfl).mono (rank_le ?_ 1)
              · exact fun body hrunning => hpoised.expectant.idle body ((Frame.progress_absorb _ _).symm.trans hrunning)
              · rw [hheight]
                exact Nat.le_succ _
          | false =>
              obtain ⟨hwatched, hwatchedActs, -⟩ := hwatchedStays hparent
              rw [hwatched, hwatchedActs]
              cases hframe : frame.isFinished with
              | false =>
                  obtain ⟨hrun, hacts, -⟩ := hstays hframe
                  obtain ⟨place, hleads, hplace⟩ := hpoised.absorb machine watched.stack.top.result
                  rw [hrun, hacts]
                  exact .of_leads hleads rfl (hplace.trans (rank_lt.2 (.inl Nat.one_pos)))
              | true =>
                  -- the frame below is the observer's, and the one below that leaves on the other stack
                  have hnext : owns observer.kinds parent = true := hpoised.owns_of_going hparent hframe
                  obtain ⟨hrun, hacts, -⟩ := hpasses hframe
                  obtain ⟨left, hleads⟩ := hpoised.passes machine hnext hframe watched.stack.top.result
                  rw [hrun, hacts]
                  refine ⟨_, _, hleads, rfl, rank_lt.2 (.inr ⟨rfl, .inl ?_⟩)⟩
                  rw [hheight]
                  exact Nat.lt_succ_self _

/-- The top frames get an outcome, and leave with it. -/
theorem Poised.unwind_absorbTop (hfronts : observer.Fronts fronted machine) {watched run : Run}
    (hpoised : observer.Poised watched run) (hfinished : watched.stack.top.isFinished = true) (outcome : Outcome)
    (hspares : ∀ ruling ∈ fronted.unwindRulings (watched.absorbTop outcome), ruling.spares observer.kinds = true) :
    observer.Comes machine (fronted.unwind (watched.absorbTop outcome)) (machine.unwind (run.absorbTop outcome))
      (fronted.unwindActs (watched.absorbTop outcome)) (machine.unwindActs (run.absorbTop outcome))
      (rank 1 watched.stack.height 0) := by
  have hother := hpoised.other_of_isFinished hfinished
  exact unwind hfronts (hpoised.covers_absorbTop hother outcome) hpoised.alike ((owns_absorb _ _).trans hother)
    ((Frame.isFinished_absorb _ _).trans hfinished) hspares

end Observer
end EffectMachine
