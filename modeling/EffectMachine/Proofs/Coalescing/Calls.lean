import EffectMachine.Proofs.Coalescing.Steps

/-!
# The stations of a batched call

A call of a batched function pushes the function's own computation and the handler that enrolls the call.  From there it
waits for its answer, or it opens the batch, stands aside for one turn, and then invokes the function behind for all that
have enrolled.

* `Batch.Burst` are the calls of one batched function with one key, and `Batch.Burst.Served` says that only the plugin
  of batches has a say in them.
* `Batch.Burst.Served.goesTo_joined` leads to the point where a call has enrolled, `Batch.Burst.goesTo_invocation` from
  there to the invocation, and `Batch.Burst.goesTo_settled` from an answer to the end.
* `Batch.Burst.ahead_settled` says that the first call answers all others when the function has returned.
-/

namespace EffectMachine

/-- The call that an act performs, if it does. -/
def Act.call? : Act → Option Effect
  | .performed (.call function args) => some (.call function args)
  | _ => none

namespace Batch

/-- The kind of the operation that batched functions perform. -/
def executing : String :=
  Kind.under Kind.batch "execute"

/-- Calls of one batched function with one key. -/
structure Burst where
  /-- The function that is called. -/
  batched : Function
  /-- The function behind it, which is invoked for a batch. -/
  function : Function
  group : BatchGroup

namespace Burst

/-- One of the calls. -/
def call (burst : Burst) (args : List Value) : Effect :=
  .call burst.batched args

/-- The operation that a call performs. -/
def operation (burst : Burst) (args : List Value) : Effect :=
  Batch.operation burst.group.definition burst.function (some burst.group.key) args

/-- The calls are served by a plugin with a zero window, and no other plugin has a say in them. -/
structure Served (burst : Burst) (machine : Machine) : Prop extends Undiverted machine where
  truthy : burst.group.key.isTruthy = true
  handled : ∃ others, machine.registry.handlersOf executing =
    .ofHandle (fun operation _ => handle burst.group.batcher 0 operation) :: others
  unchecked : machine.registry.validator? executing = none

/-- A call with some arguments performs the operation. -/
def Performs (burst : Burst) (machine : Machine) (args : List Value) : Prop :=
  machine.library.body burst.batched args =
    computation burst.group.definition burst.function (some burst.group.key) args

/-- The stack of a call while it is served. -/
def caller (burst : Burst) (context : Context) (task : TaskId) (progress : Progress) : Stack where
  context
  signal := some task
  top := { progress, name := some "batch", tag := some ⟨executing, 0⟩ }
  below := [{ progress := .suspended .done, name := some burst.batched.name }, .root]

/-- How a call goes on that has been enrolled. -/
def joined (burst : Burst) (enrolment : Enrolment) : Body :=
  if enrolment.opened then
    .emit (.batchOpened burst.function.name burst.group.key) <|
      .andThen (.bare (flush burst.group burst.function 0)) fun _ => awaitAnswer enrolment.slot
  else awaitAnswer enrolment.slot

variable {burst : Burst} {machine : Machine} {context : Context} {task : TaskId} {host : Host} {args : List Value}

theorem Served.pushes_handle (served : burst.Served machine) (task : TaskId) (args : List Value) :
    machine.Pushes task (burst.operation args) (handle burst.group.batcher 0 (burst.operation args)) (some ⟨executing, 0⟩) := by
  obtain ⟨others, hhandlers⟩ := served.handled
  have hvalid : machine.registry.validate (burst.operation args) = .done none := by
    have hunchecked : machine.registry.validator? (Kind.under Kind.batch "execute") = none := served.unchecked
    simp [operation, Batch.operation, Registry.validate, Registry.validateOne, Registry.terminalRefusal, Effect.kind,
      hunchecked]
  exact fun run => ⟨_, .emit task _ _, Machine.handle_of_handler hvalid rfl hhandlers run,
    Machine.handleActs_of_handler hvalid hhandlers run⟩

theorem Served.body_handle (served : burst.Served machine) (args : List Value) :
    (handle burst.group.batcher 0 (burst.operation args)).body =
      .act (.enroll burst.group args) burst.joined := by
  have hkey : (some burst.group.key).filter BatchKey.isTruthy = some burst.group.key := by simp [served.truthy]
  have hpayload : (burst.operation args).intoPayload .batchCall =
      .ok (.batchCall burst.group.definition burst.function (some burst.group.key) args) := rfl
  simp only [handle, Computation.named, hpayload, hkey]
  rfl

/-- From its start a call goes on at once until it is enrolled. -/
theorem Served.goesTo_joined (served : burst.Served machine) (context : Context) (task : TaskId) (host : Host)
    (hperforms : burst.Performs machine args)
    (hcalm : host.isCanceled task = false) :
    GoesTo machine task (Run.proceed task (machine.begin context (some task) (burst.call args) host))
      [.resumed (.ok .null), .performed (burst.operation args),
        .pushed (handle burst.group.batcher 0 (burst.operation args)) (some ⟨executing, 0⟩), .resumed (.ok .null),
        .acted (.enroll burst.group args) (host.batches.enroll burst.group args).1]
      (burst.caller context task (.running (burst.joined (host.batches.enroll burst.group args).1)))
      { host with batches := (host.batches.enroll burst.group args).2 } := by
  have hinvoke : machine.invoke burst.batched args = ⟨some burst.batched.name, .perform (burst.operation args) .done⟩ := by
    unfold Machine.invoke
    rw [hperforms]
    rfl
  have hbegin : machine.begin context (some task) (burst.call args) host =
      { stack := Stack.push { context, signal := some task }
          (.ofComputation ⟨some burst.batched.name, .perform (burst.operation args) .done⟩ none)
        host := host.emit (.called burst.batched.name) } := by
    unfold Machine.begin call
    rw [Machine.handle_call served.toUndiverted, hinvoke]
    rfl
  have hstart : GoesTo machine task (Run.proceed task (machine.begin context (some task) (burst.call args) host)) []
      (Stack.push { context, signal := some task }
        (.ofComputation ⟨some burst.batched.name, .perform (burst.operation args) .done⟩ none)) host := by
    rw [hbegin]
    exact ⟨_, .rest _, .trans (.emit task host _) (.proceed task _)⟩
  have hserving := (hstart.fresh (.inr hcalm) rfl rfl rfl).pushes (.inr hcalm) rfl rfl rfl
    (served.pushes_handle task args)
  exact (hserving.fresh (.inr hcalm) rfl rfl rfl).enrolls rfl (congrArg Progress.running (served.body_handle args))

/-! ## The flush -/

/-- How the call that has opened the batch goes on after the flush. -/
def resumption (slot : Slot) : Outcome → Body
  | .ok _ => awaitAnswer slot
  | .error error => .fail error

/-- The stack of the call that has opened the batch while the batch is flushed. -/
def opener (burst : Burst) (context : Context) (task : TaskId) (slot : Slot) (progress : Progress) (result : Outcome)
    (answerable : List Slot) : Stack :=
  (burst.caller context task (.suspended (resumption slot))).push
    { progress, name := some "batch flush", result, answerable }

/-- How the flush goes on when the function has returned. -/
def delivery (burst : Burst) (calls : List Enrolled) (returned : Outcome) : Body :=
  match resultsFor burst.function calls.length (returned.bind Value.intoList) with
  | .ok results => answerEach (.ok .null) ((calls.map Enrolled.slot).zip (results.map Except.ok))
  | .error error =>
    .emit (.batchFailed error burst.function.name) <|
      answerEach (.ok .null) (calls.map fun call => (call.slot, .error error))

/-- The effect that invokes the function for some calls. -/
def invocation (burst : Burst) (calls : List Enrolled) : Effect :=
  Batch.invocation burst.function calls

/-- A call that has opened a batch goes on at once until its flush gives up its turn. -/
theorem Served.goesTo_yield {run : Run} {acts : List Act} {enrolment : Enrolment} (served : burst.Served machine)
    (goesTo : GoesTo machine task run acts (burst.caller context task (.running (burst.joined enrolment))) host)
    (hcalm : host.isCanceled task = false) (hopened : enrolment.opened = true) :
    GoesTo machine task run
      (acts ++ [.acted (.emit (.batchOpened burst.function.name burst.group.key)) (),
        .performed (.bare (flush burst.group burst.function 0)), .pushed (flush burst.group burst.function 0) none,
        .resumed (.ok .null)])
      (burst.opener context task enrolment.slot (.running (.act .yieldTurn fun _ => flushNow burst.group burst.function))
        (.ok .null) []) host := by
  have hpushes : machine.Pushes task (.bare (flush burst.group burst.function 0)) (flush burst.group burst.function 0) none :=
    fun run => ⟨run.host, .refl task _, Machine.handle_bare served.toUndiverted _ run,
      Machine.handleActs_bare served.execute _ run⟩
  have hopens : burst.joined enrolment = .emit (.batchOpened burst.function.name burst.group.key)
      (.perform (.bare (flush burst.group burst.function 0)) (resumption enrolment.slot)) := by
    unfold joined
    rw [if_pos hopened]
    rfl
  have hopening := goesTo.emits rfl (congrArg Progress.running hopens)
  have hflushing := hopening.pushes (.inr hcalm) rfl rfl rfl hpushes
  have hyielding := hflushing.fresh (.inr hcalm) rfl rfl rfl
  rw [List.append_assoc, List.append_assoc] at hyielding
  exact hyielding

/-- When it has its next turn, the flush goes on at once until it invokes the function. -/
theorem goesTo_invocation (burst : Burst) (machine : Machine) (context : Context) (task : TaskId) (slot : Slot)
    (host : Host) :
    GoesTo machine task
      { stack := burst.opener context task slot (.running (flushNow burst.group burst.function)) (.ok .null) [], host }
      [.acted (.collect burst.group) (host.batches.callsOf burst.group),
        .acted (.emit (.batchFlushed burst.function.name (host.batches.callsOf burst.group).length)) ()]
      (burst.opener context task slot
        (.running (.perform (burst.invocation (host.batches.callsOf burst.group))
          (burst.delivery (host.batches.callsOf burst.group)))) (.ok .null)
        ((host.batches.callsOf burst.group).map Enrolled.slot))
      { host with batches := host.batches.remove burst.group } := by
  have hstart := GoesTo.start machine task (burst.opener context task slot
    (.running (flushNow burst.group burst.function)) (.ok .null) []) host
  exact (hstart.collects rfl rfl).emits rfl rfl

/-- The flush invokes the function. -/
theorem Served.goesTo_function {run : Run} {acts : List Act} {slot : Slot} {calls : List Enrolled}
    (served : burst.Served machine)
    (goesTo : GoesTo machine task run acts (burst.opener context task slot
      (.running (.perform (burst.invocation calls) (burst.delivery calls))) (.ok .null) (calls.map Enrolled.slot)) host)
    (hcalm : host.isCanceled task = false) :
    GoesTo machine task run
      (acts ++ [.performed (burst.invocation calls),
        .pushed (machine.invoke burst.function ((calls.map Enrolled.args).map Value.list)) none])
      ((burst.opener context task slot (.suspended (burst.delivery calls)) (.ok .null) (calls.map Enrolled.slot)).push
        (.ofComputation (machine.invoke burst.function ((calls.map Enrolled.args).map Value.list)) none)) host := by
  have hpushes : machine.Pushes task (burst.invocation calls)
      (machine.invoke burst.function ((calls.map Enrolled.args).map Value.list)) none := fun run =>
    ⟨_, .emit task _ _, Machine.handle_call served.toUndiverted _ _ run,
      Machine.handleActs_call served.call served.calls _ _ run⟩
  exact goesTo.pushes (.inr hcalm) rfl rfl rfl hpushes

/-! ## The end of a call -/

/-- The stack of a call that has come to a value. -/
def settled (context : Context) (task : TaskId) (value : Value) : Stack where
  context
  signal := some task
  top := { progress := .root, result := .ok value }

/-- A call that is answered with a value goes on at once until it has come to it. -/
theorem goesTo_settled (burst : Burst) {run : Run} {acts : List Act} {slot : Slot} {value : Value}
    (hcalm : host.isCanceled task = false) (hanswered : host.batches.slots[slot.index]? = some (.answered (.ok value)))
    (goesTo : GoesTo machine task run acts (burst.caller context task (.running (awaitAnswer slot))) host) :
    GoesTo machine task run
      (acts ++ [.acted (.receive slot) (some (.ok value)), .completed (.ok value), .left, .resumed (.ok value),
        .completed (.ok value), .left])
      (settled context task value) host := by
  have hreceives : GoesTo machine task run (acts ++ [.acted (.receive slot) (some (.ok value))])
      (burst.caller context task (.running (.done (.ok value)))) host :=
    goesTo.replies rfl rfl fun later still => ⟨later, still, by
      have hstate : later.batches.stateOf slot = .answered (.ok value) := by
        rw [still.batches, Batches.stateOf, hanswered]
        rfl
      rw [Host.react, hstate]⟩
  have hserved := hreceives.done rfl rfl rfl (List.forall_mem_nil _) rfl
  have hends := (hserved.resumed (.inr hcalm) rfl rfl rfl).done rfl rfl rfl (List.forall_mem_nil _) rfl
  simp only [List.append_assoc] at hends
  exact hends

end Burst
end Batch

/-! ## Answers -/

namespace Host

theorem processes_settle (host : Host) (slot : Slot) (state : SlotState) :
    (host.settle slot state).processes = host.processes := by
  unfold Host.settle
  split <;> rfl

/-- A pending slot gets its final state. -/
theorem slots_settle_of_pending {host : Host} {slot : Slot} (state : SlotState)
    (hpending : host.batches.slots[slot.index]? = some .pending) :
    (host.settle slot state).batches.slots = host.batches.slots.set slot.index state := by
  have htrue := Batches.isPending_iff.2 hpending
  unfold Host.settle
  rw [if_pos htrue]
  show (host.batches.settle slot state).slots = _
  unfold Batches.settle
  rw [if_pos htrue]

end Host

namespace Ahead

variable {machine : Machine} {task : TaskId}

/-- A computation answers calls one after another.  The induction is on the calls. -/
theorem answers (machine : Machine) (task : TaskId) (stack : Stack) {parent : Frame} {rest : List Frame} {body : Body}
    (answers : List (Slot × Outcome)) (hnodup : (answers.map Prod.fst).Nodup) (hbelow : stack.below = parent :: rest)
    (hprogress : stack.top.progress = .running (Batch.answerEach body answers)) (host : Host)
    (hpending : ∀ answer ∈ answers, host.batches.slots[answer.1.index]? = some .pending) :
    ∃ later, Ahead machine task { stack, host } (answers.map fun answer => .acted (.answer answer.1 answer.2) ())
        { stack := stack.withTop fun frame => { frame with progress := .running body }, host := later } ∧
      later.processes = host.processes ∧
      ∀ answer ∈ answers, later.batches.slots[answer.1.index]? = some (.answered answer.2) := by
  induction answers generalizing stack host with
  | nil =>
      have hsame : stack.withTop (fun frame => { frame with progress := .running body }) = stack := by
        obtain ⟨context, signal, ⟨progress, name, tag, result, defers, cancellation, answerable⟩, below, canceled⟩ := stack
        obtain rfl : progress = .running body := hprogress
        rfl
      rw [hsame]
      exact ⟨host, .rest _, rfl, fun _ hmem => nomatch hmem⟩
  | cons answer answers ih =>
      obtain ⟨slot, outcome⟩ := answer
      obtain ⟨hfirst, hrest⟩ := List.nodup_cons.1 hnodup
      have hslots := Host.slots_settle_of_pending (.answered outcome) (hpending (slot, outcome) List.mem_cons_self)
      have hless := (List.getElem?_eq_some_iff.1 (hpending (slot, outcome) List.mem_cons_self)).1
      have hothers : ∀ answer ∈ answers, (host.settle slot (.answered outcome)).batches.slots[answer.1.index]? =
          some .pending := by
        intro answer hmem
        have hother : slot.index ≠ answer.1.index := by
          intro hsame
          obtain rfl : slot = answer.1 := congrArg Slot.mk hsame
          exact hfirst (List.mem_map.2 ⟨answer, hmem, rfl⟩)
        rw [hslots, List.getElem?_set_ne hother]
        exact hpending answer (List.mem_cons_of_mem _ hmem)
      have habove : ({ stack, host } : Run).stack.below ≠ [] := by simp [hbelow]
      have hanswer : Ahead machine task { stack, host } [.acted (.answer slot outcome) ()]
          (Run.proceed task
            { stack := stack.withTop fun frame => { frame with progress := .running (Batch.answerEach body answers) }
              host := host.settle slot (.answered outcome) }) := by
        refine .single habove ?_
        have hstep : machine.step { stack, host } = _ ∧ machine.stepActs { stack, host } = _ :=
          Machine.step_reply hprogress rfl
        simpa [Machine.replied, Action.acquired, Machine.moved] using hstep
      obtain ⟨later, ahead, hprocesses, hanswered⟩ := ih
        (stack.withTop fun frame => { frame with progress := .running (Batch.answerEach body answers) }) hrest
        (show (stack.withTop fun frame => { frame with progress := .running (Batch.answerEach body answers) }).below =
          parent :: rest from hbelow) rfl
        { host.settle slot (.answered outcome) with
          schedule := (host.settle slot (.answered outcome)).schedule.proceed task } hothers
      refine ⟨later, hanswer.trans ahead, hprocesses.trans ?_, ?_⟩
      · exact Host.processes_settle host slot _
      · intro answer hmem
        rcases List.mem_cons.1 hmem with rfl | hmem
        · have hown : (host.settle slot (.answered outcome)).batches.slots[slot.index]? = some (.answered outcome) := by
            rw [hslots, List.getElem?_set_self hless]
          rcases (ahead.scheduled .task).slots hown with hsame | ⟨hpending, -⟩
          · exact hsame
          · cases hpending
        · exact hanswered answer hmem

end Ahead
namespace Batch.Burst

variable {burst : Burst} {machine : Machine} {context : Context} {task : TaskId} {host : Host}

/-- When the function has returned one result for each call, the flush answers all calls at once, and the call that has
opened the batch comes to its own result. -/
theorem ahead_settled (burst : Burst) (machine : Machine) (context : Context) {slot : Slot} {calls : List Enrolled} {results : List Value} {first : Enrolled} {value : Value}
    (hcalm : host.isCanceled task = false) (hnodup : (calls.map Enrolled.slot).Nodup)
    (hpending : ∀ call ∈ calls, host.batches.slots[call.slot.index]? = some .pending)
    (hlength : results.length = calls.length) (hfirst : calls[0]? = some first) (hslot : first.slot = slot)
    (hvalue : results[0]? = some value) :
    ∃ acts later, Ahead machine task
        { stack := burst.opener context task slot (.suspended (burst.delivery calls)) (.ok (.list results))
            (calls.map Enrolled.slot)
          host }
        acts { stack := settled context task value, host := later } ∧
      acts.filterMap Act.call? = [] ∧ later.processes = host.processes ∧
      ∀ (place : Nat) (call : Enrolled) (value : Value), calls[place]? = some call → results[place]? = some value →
        later.batches.slots[call.slot.index]? = some (.answered (.ok value)) := by
  have hdelivery : burst.delivery calls (.ok (.list results)) =
      answerEach (.ok .null) ((calls.map Enrolled.slot).zip (results.map Except.ok)) := by
    simp [delivery, resultsFor, Except.bind, Value.intoList, hlength]
  obtain ⟨resumed, hresumed, hstill⟩ := (GoesTo.start machine task (burst.opener context task slot
    (.suspended (burst.delivery calls)) (.ok (.list results)) (calls.map Enrolled.slot)) host).resumed (.inr hcalm) rfl rfl rfl
  have hfst : ((calls.map Enrolled.slot).zip (results.map (Except.ok : Value → Outcome))).map Prod.fst =
      calls.map Enrolled.slot := List.map_fst_zip (by simp [hlength])
  obtain ⟨answered, hanswers, hprocesses, hslots⟩ := Ahead.answers machine task
    (burst.opener context task slot (.running (burst.delivery calls (.ok (.list results)))) (.ok .null) (calls.map Enrolled.slot))
    ((calls.map Enrolled.slot).zip (results.map Except.ok)) (by rw [hfst]; exact hnodup) rfl
    (congrArg Progress.running hdelivery) resumed (by
      intro answer hmem
      obtain ⟨call, hcall, hslot⟩ := List.mem_map.1 (List.of_mem_zip hmem).1
      rw [← hslot, hstill.batches]
      exact hpending call hcall)
  have hgiven (place : Nat) (call : Enrolled) (value : Value) (hcall : calls[place]? = some call)
      (hvalue : results[place]? = some value) :
      answered.batches.slots[call.slot.index]? = some (.answered (.ok value)) := by
    refine hslots (call.slot, .ok value) (List.mem_of_getElem? (i := place) ?_)
    rw [List.getElem?_zip_eq_some]
    simp [hcall, hvalue]
  -- the flush ends, with nothing left to close
  have hsettled : ∀ other ∈ calls.map Enrolled.slot, answered.batches.isPending other = false := by
    intro other hother
    obtain ⟨call, hcall, rfl⟩ := List.mem_map.1 hother
    obtain ⟨place, hplace⟩ := List.getElem?_of_mem hcall
    obtain ⟨hless, -⟩ := List.getElem?_eq_some_iff.1 hplace
    have hgiven := hgiven place call _ hplace (List.getElem?_eq_getElem (hlength ▸ hless))
    simp [Batches.isPending, Batches.stateOf, hgiven]
  have hquiet : answered.isCanceled task = false := by
    rw [← hcalm]
    unfold Host.isCanceled
    rw [hprocesses, hstill.processes]
  have hends := (GoesTo.start machine task (burst.opener context task slot (.running (.ok .null)) (.ok .null)
    (calls.map Enrolled.slot)) answered).done rfl rfl rfl hsettled rfl
  have hown : answered.batches.slots[slot.index]? = some (.answered (.ok value)) :=
    hslot ▸ hgiven 0 first value hfirst hvalue
  obtain ⟨later, hlast, hlater⟩ := goesTo_settled burst hquiet hown (hends.resumed (.inr hquiet) rfl rfl rfl)
  refine ⟨_, later, (hresumed.trans hanswers).trans hlast, ?_, hlater.processes.trans (hprocesses.trans hstill.processes), ?_⟩
  · have hquiet : (((calls.map Enrolled.slot).zip (results.map (Except.ok : Value → Outcome))).map
        fun answer => Act.acted (.answer answer.1 answer.2) ()).filterMap Act.call? = [] := by
      simp [List.filterMap_map, Function.comp_def, Act.call?]
    simp only [List.filterMap_append, hquiet]
    rfl
  · intro place call value hcall hvalue
    rw [hlater.batches]
    exact hgiven place call value hcall hvalue

end Batch.Burst
end EffectMachine
