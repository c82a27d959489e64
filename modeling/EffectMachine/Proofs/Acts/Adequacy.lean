import EffectMachine.Proofs.Acts.Rules

/-!
# The acts of a step

`Machine.stepActs` computes the acts of one step of a run.  It follows the step itself: what the top
frame does, whether a cancellation is noticed, how an effect is delegated from handler to core rule, and
which frames leave before a deferred effect is started.

The main statement is `Machine.step_chain`: the acts of a step lead from the run before it to the run after it.
-/

namespace EffectMachine

/-- The run after one step, whether or not it can go on at once. -/
def Stepped.run : Stepped Stack → Run
  | .moved stack host | .gaveWay stack host | .waits stack host _ => { stack, host }

namespace Machine

/-- Whether a run takes note of its cancellation now. -/
def noticeActs (run : Run) : List Act :=
  if !run.stack.canceled && run.stack.signal.any run.host.isCanceled then [.noticed] else []

/-- The acts of handling an effect. -/
def handleActs (machine : Machine) (effect : Effect) (run : Run) : List Act :=
  match run.host.run (machine.registry.validate effect) with
  | (some error, _) => [.failed error]
  | (none, host) =>
    machine.dispatchActs effect 0 { run with host } ++
      failureActs (machine.dispatch effect 0 { run with host }).failure

/-- Handling an effect reports an error, or does what dispatching the effect does. -/
theorem dispatches_of_mem_handleActs {machine : Machine} {effect : Effect} {run : Run} {act : Act}
    (hmem : act ∈ machine.handleActs effect run) :
    (∃ error, act = .failed error) ∨ ∃ host, machine.Dispatches effect 0 { run with host } act := by
  unfold handleActs at hmem
  split at hmem
  · exact .inl ⟨_, List.mem_singleton.1 hmem⟩
  · rename_i host _
    rcases List.mem_append.1 hmem with hdispatched | hfailed
    · exact .inr ⟨host, dispatches_of_mem hdispatched⟩
    · exact .inl (failed_of_mem_failureActs hfailed)

/-- The acts of taking finished frames off the stack. -/
def unwindActsFrom (machine : Machine) (stack : Stack) (host : Host) (top : Frame) :
    List Frame → List Act
  | [] => []
  | parent :: rest =>
    match top.defers with
    | effect :: defers =>
      .started effect ::
        machine.handleActs effect
          { stack := { stack with top := { top with defers }, below := parent :: rest }
            host := host.emit (.deferredStarted effect.kind) }
    | [] =>
      if parent.isFinished then
        match top.result, parent.result with
        | .error error, .error existing =>
          .left :: machine.unwindActsFrom stack (host.emit (.deferredFailed error existing)) parent rest
        | .error error, .ok _ =>
          .left :: machine.unwindActsFrom stack host { parent with result := .error error } rest
        | .ok _, _ => .left :: machine.unwindActsFrom stack host parent rest
      else [.left]

/-- The acts of unwinding. -/
def unwindActs (machine : Machine) (run : Run) : List Act :=
  machine.unwindActsFrom run.stack run.host run.stack.top run.stack.below

/-- The top frame once its computation has ended, and what is closed with it. -/
def finished (outcome : Outcome) (run : Run) : Run where
  stack := run.stack.withTop fun frame => frame.finish outcome
  host := run.host.close run.stack.top.answerable

/-- The acts of a turn of the top frame. -/
def turnActs (machine : Machine) (run : Run) : List Act :=
  let noticed := noticeActs run
  let run := run.observeCancellation
  let frame := run.stack.top
  noticed ++
    if frame.isFinished then machine.unwindActs run
    else if frame.cancellation = .due then
      .givenUp ::
        machine.unwindActs
          (finished (.ok .null) (run.withTop fun frame => { frame with cancellation := .applied }))
    else
      match frame.progress with
      | .fresh _ | .suspended _ => [.resumed frame.result]
      | .running _ => []
      | .root | .finished => .vacated :: machine.unwindActs (finished (.ok .null) run)

/-- The acts of a computation that ends. -/
def completeActs (machine : Machine) (outcome : Outcome) (run : Run) : List Act :=
  .completed outcome ::
    match outcome with
    | .error error =>
      machine.unwindActs (finished outcome (run.emit (.computationFailed error run.stack.labels)))
    | .ok _ => machine.unwindActs (finished outcome run)

/-- The acts of a computation that performs an effect. -/
def suspendActs (machine : Machine) (effect : Effect) (resume : Outcome → Body) (run : Run) : List Act :=
  let run := run.withTop fun frame => { frame with progress := .suspended resume }
  let noticed := noticeActs run
  let run := run.observeCancellation
  .performed effect :: noticed ++
    if run.stack.top.cancellation = .due then [] else machine.handleActs effect run

/-- The acts of a computation that does something by itself. -/
def actActs (action : Action) (run : Run) : List Act :=
  match run.host.react action with
  | .reply _ answer | .giveWay _ answer => [.acted action answer]
  | .wait _ _ => [.waited action]

/-- The acts of one step of a run. -/
def stepActs (machine : Machine) (run : Run) : List Act :=
  match run.stack.top.progress with
  | .running (.done outcome) => machine.completeActs outcome run
  | .running (.perform effect resume) => machine.suspendActs effect resume run
  | .running (.act action _) => actActs action run
  | _ => machine.turnActs run

/-! ## The acts of a step lead to its result -/

open Run

/-- A cancellation is noticed by one act, or not at all. -/
theorem notice_chain (run : Run) : Chain run (noticeActs run) run.observeCancellation := by
  unfold noticeActs observeCancellation
  split
  · rename_i hnotice
    simp only [Bool.and_eq_true, Bool.not_eq_true'] at hnotice
    exact .act (.notice run hnotice.1 hnotice.2) (.journal _ rfl)
  · exact .done run

/-- Discarding the top frame is one act. -/
theorem chain_of_terminateTop {run next : Run} (hterminated : run.terminateTop = .ok next) :
    Chain run [.dropped] next := by
  unfold terminateTop at hterminated
  split at hterminated
  · cases hterminated
  · rename_i parent rest hbelow
    cases hterminated
    refine .quiet
      (if run.stack.top.defers.isEmpty then run
        else run.emit (.defersDropped run.stack.top.label run.stack.top.defers.length)).host ?_ ?_
    · split <;> rfl
    · refine .quiet _ (Host.quiet_emit _ (.terminated run.stack.top.label)) ?_
      split
      · exact .single (.drop _ parent rest hbelow)
      · exact .single (.drop _ parent rest hbelow)

/-- Catching the error of the frame below is one act, if there is one. -/
theorem catch_chain (run : Run) : Chain run (catchActs run) run.recover := by
  cases hbelow : run.stack.below with
  | nil =>
      simp only [catchActs, recover, hbelow]
      exact .done run
  | cons parent rest =>
      cases hfinished : parent.isFinished with
      | false =>
          simp only [catchActs, recover, hbelow, hfinished]
          exact .done run
      | true =>
          cases hresult : parent.result with
          | ok value =>
              simp only [catchActs, recover, hbelow, hfinished, hresult]
              exact .done run
          | error error =>
              simp only [catchActs, recover, hbelow, hfinished, hresult]
              exact .act (.catch run parent rest error hbelow hfinished hresult) (.journal _ rfl)

/-- Reporting an event and answering the top frame do not depend on each other. -/
theorem answerTop_emit (run : Run) (event : Event) (value : Value) :
    (run.emit event).answerTop value = (run.answerTop value).emit event := by
  unfold answerTop
  split
  · rename_i hfinished
    rw [if_pos (show run.stack.top.isFinished = true from hfinished)]
  · rename_i hunfinished
    rw [if_neg (show ¬ run.stack.top.isFinished = true from hunfinished)]
    rfl

/-- Forking an effect is one act, if there is a scheduler. -/
theorem fork_chain (effect : Effect) (run : Run) :
    Chain run (if run.host.scheduled then [.forked effect] else []) (fork effect run).run := by
  unfold fork
  split
  · rename_i hscheduled
    let spawned := run.host.spawn (.forked run.stack.context effect)
    have hforked := answerTop_emit { run with host := spawned.2 } (.forked spawned.1) (.task spawned.1)
    show Chain run _ (({ run with host := spawned.2 }.emit (.forked spawned.1)).answerTop
      (.task spawned.1))
    rw [hforked]
    exact .act (.fork run effect hscheduled) (.journal _ rfl)
  · exact .done run

/-- Describing the top frame is one act. -/
theorem describe_chain (run : Run) :
    Chain run [.answered (.object (.frame run.host.nextIdentity run.stack.frameInfo))]
      (describe run).run :=
  .quiet _ (Host.quiet_mint run.host 1) (.single (.answer _ _))

/-- Looking for a handler changes nothing but the journal. -/
theorem quiet_of_select {machine : Machine} {run : Run} {effect : Effect} {first : Nat}
    {answer : Option (Nat × Handler)} {host : Host}
    (hrun : run.host.run (machine.registry.select effect run.stack.context first) = (answer, host)) :
    host.quiet = run.host.quiet := by
  have hquiet := run.host.quiet_run (machine.registry.select effect run.stack.context first)
  rw [hrun] at hquiet
  exact hquiet

/-- The acts of a core rule lead to the run after it, if those of dispatching the wrapped effect do. -/
theorem core_chain (machine : Machine) (effect : Effect) (run : Run)
    (hwrapped : ∀ inner, effect.wrapped? = some inner → ∀ first run,
      Chain run (machine.dispatchActs inner first run) (machine.dispatch inner first run).run) :
    Chain run (machine.coreActs effect run) (machine.core effect run).run := by
  have hinPlace {inner : Effect} (hinner : effect.wrapped? = some inner) (position : Nat) :
      Chain run (machine.inPlaceActs inner position run) (machine.dispatchInPlace inner position run).run := by
    unfold inPlaceActs dispatchInPlace
    cases hterminated : run.terminateTop with
    | ok after => exact (chain_of_terminateTop hterminated).append (hwrapped inner hinner position after)
    | error error => exact .done run
  cases effect with
  | bare computation | execute computation => exact .single (.push run computation none)
  | call function args =>
      exact .quiet _ (Host.quiet_emit run.host (.called function.name)) (.single (.push _ _ _))
  | fork inner => exact fork_chain inner run
  | start inner => exact hwrapped inner rfl 0 run
  | defer inner => exact .single (.defer run inner)
  | recover => exact catch_chain run
  | terminal inner => exact hinPlace rfl 0
  | generator => exact describe_chain run
  | next inner inPlace =>
      simp only [coreActs, core]
      cases delegation run inner with
      | error error => exact .done run
      | ok position =>
          cases inPlace with
          | false => exact hwrapped inner rfl position run
          | true => exact hinPlace rfl position
  | custom kind payload => exact .done run

/-- The acts of dispatching an effect lead to the run after it. -/
theorem dispatch_chain (machine : Machine) (effect : Effect) (first : Nat) (run : Run) :
    Chain run (machine.dispatchActs effect first run) (machine.dispatch effect first run).run := by
  induction effect using Effect.wrapped_induction generalizing first run with
  | step effect ih =>
      rcases hselect : run.host.run (machine.registry.select effect.operation run.stack.context first) with ⟨choice, host⟩
      rw [dispatch_of_select hselect, dispatchActs_of_select hselect]
      refine .quiet host (quiet_of_select hselect) ?_
      cases choice with
      | some chosen => exact .quiet _ (Host.quiet_emit host _) (.single (.push _ _ _))
      | none => exact machine.core_chain effect { run with host } ih

/-- The acts of handling an effect lead to the run after it. -/
theorem handle_chain (machine : Machine) (effect : Effect) (run : Run) :
    Chain run (machine.handleActs effect run) (machine.handle effect run) := by
  have hquiet := run.host.quiet_run (machine.registry.validate effect)
  unfold handleActs handle attempt
  rcases hrun : run.host.run (machine.registry.validate effect) with ⟨refusal, host⟩
  rw [hrun] at hquiet
  cases refusal with
  | some error => exact .quiet host hquiet (.quiet _ (Host.quiet_emit host _) (.single (.fail _ error)))
  | none =>
      refine .quiet host hquiet ?_
      have hdispatch := machine.dispatch_chain effect 0 { run with host }
      cases hhandled : machine.dispatch effect 0 { run with host } with
      | mk after failure =>
          rw [hhandled] at hdispatch
          cases failure with
          | none => simpa [failureActs, hhandled] using hdispatch
          | some error =>
              simp only [hhandled]
              exact hdispatch.append
                (.quiet _ (Host.quiet_emit after.host _) (.single (.fail _ error)))

/-- The acts of taking finished frames off the stack lead to the run after it, given that the frame to
start from has finished. -/
theorem unwindFrom_chain (machine : Machine) (stack : Stack) (host : Host) (top : Frame)
    (below : List Frame) (hfinished : top.isFinished = true) :
    Chain { stack := { stack with top, below }, host } (machine.unwindActsFrom stack host top below)
      (machine.unwindFrom stack host top below) := by
  induction below generalizing host top with
  | nil => exact .done _
  | cons parent rest ih =>
      unfold unwindActsFrom unwindFrom
      cases hdefers : top.defers with
      | cons effect defers =>
          refine .quiet (host.emit (.deferredStarted effect.kind)) rfl ?_
          exact .act (.start _ effect defers (by simp) hfinished hdefers)
            (machine.handle_chain effect _)
      | nil =>
          have hleave := Does.leave { stack := { stack with top, below := parent :: rest }, host } parent
            rest rfl hfinished hdefers
          simp only [Frame.absorb] at hleave
          cases hparent : parent.isFinished with
          | false =>
              rw [if_neg (by simp [hparent])] at hleave
              simpa using Chain.single hleave
          | true =>
              rw [if_pos hparent] at hleave
              cases hresult : top.result with
              | ok value =>
                  simp only [hresult] at hleave
                  simpa [hparent] using Chain.act hleave (ih host parent hparent)
              | error error =>
                  cases hkept : parent.result with
                  | ok value =>
                      simp only [hresult, hkept] at hleave
                      simpa [hparent] using
                        Chain.act hleave (ih host { parent with result := .error error } hparent)
                  | error existing =>
                      simp only [hresult, hkept] at hleave
                      simp only [if_true]
                      exact .act hleave
                        (.quiet _ (Host.quiet_emit host (.deferredFailed error existing))
                          (ih (host.emit (.deferredFailed error existing)) parent hparent))

/-- The acts of unwinding lead to the run after it. -/
theorem unwind_chain (machine : Machine) (run : Run) (hfinished : run.stack.top.isFinished = true) :
    Chain run (machine.unwindActs run) (machine.unwind run) :=
  machine.unwindFrom_chain run.stack run.host run.stack.top run.stack.below hfinished

/-- The acts of a turn lead to the run after it. -/
theorem turn_chain (machine : Machine) (run : Run) :
    Chain run (machine.turnActs run) (machine.turn run) := by
  unfold turnActs turn
  refine (notice_chain run).append ?_
  generalize run.observeCancellation = noticed
  split
  · rename_i hfinished
    rw [if_pos hfinished]
    exact machine.unwind_chain noticed hfinished
  · rename_i hunfinished
    rw [if_neg hunfinished]
    split
    · rename_i hdue
      exact .act (.giveUp noticed (by simpa using hunfinished) hdue)
        (machine.unwind_chain _ rfl)
    · rename_i hkept
      cases hprogress : noticed.stack.top.progress with
      | fresh body => exact .single (.begin noticed body hprogress hkept)
      | suspended resume => exact .single (.resume noticed resume hprogress hkept)
      | running body => exact .done noticed
      | root =>
          exact .act (.vacate noticed hprogress) (machine.unwind_chain _ rfl)
      | finished => exact absurd (by simp [Frame.isFinished, hprogress]) hunfinished

/-- The act of a computation that does something by itself leads to the run after it. -/
theorem act_chain (action : Action) (resume : action.Reply → Body) (run : Run)
    (hrunning : run.stack.top.progress = .running (.act action resume)) :
    Chain run (actActs action run) (act action resume run).run := by
  unfold actActs act
  cases hreact : run.host.react action with
  | reply host answer => exact .single (.act run action resume host answer hrunning (.inl hreact))
  | giveWay host answer => exact .single (.act run action resume host answer hrunning (.inr hreact))
  | wait host occasions => exact .single (.wait run action resume host occasions hrunning hreact)

/-- The acts of one step of a run lead to the run after it. -/
theorem step_chain (machine : Machine) (run : Run) :
    Chain run (machine.stepActs run) (machine.step run).run := by
  unfold stepActs step
  cases hprogress : run.stack.top.progress with
  | running body =>
      cases body with
      | done outcome =>
          cases outcome with
          | ok value =>
              exact .act (.complete run _ hprogress)
                (machine.unwind_chain (finished (.ok value) run) rfl)
          | error error =>
              let failed := run.emit (.computationFailed error run.stack.labels)
              refine .quiet failed.host rfl (.act (.complete failed _ hprogress) ?_)
              exact machine.unwind_chain (finished (.error error) failed) rfl
      | perform effect resume =>
          refine .act (.perform run effect resume hprogress) ?_
          refine (notice_chain _).append ?_
          simp only [suspend]
          generalize (run.withTop fun frame =>
            { frame with progress := .suspended resume }).observeCancellation = noticed
          split
          · exact .journal _ rfl
          · exact machine.handle_chain effect noticed
      | act action resume => exact act_chain action resume run hprogress
  | root | fresh _ | suspended _ | finished => exact machine.turn_chain run

end Machine
end EffectMachine
