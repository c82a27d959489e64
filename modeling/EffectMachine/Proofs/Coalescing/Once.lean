import EffectMachine.Proofs.Batch.Isolation
import EffectMachine.Proofs.Coalescing.Completion

/-!
# Calls that are made together are one invocation

`all` is given some calls of a batched function without a window, with one key, when nobody else can run and no batch of
their group is open.  The function behind is invoked once, with the argument lists of all calls in order, and `all` comes to
the list of results that the function returns.

* `Requests` says that a process is about to have an effect handled, which a computation performs or a client submits.
* `Batch.coalesced_once` is the statement.
-/

namespace EffectMachine

/-- The computation on top is about to perform an effect, and no cancellation keeps it from that. -/
structure Run.Asks (run : Run) (effect : Effect) (resume : Outcome → Body) : Prop where
  calm : run.Calm
  above : run.stack.below ≠ []
  progress : run.stack.top.progress = .running (.perform effect resume)
  kept : run.stack.top.cancellation = .none

/-- A process is about to have an effect handled on a stack: a computation performs it, or a client submits it on a stack of
its own. -/
inductive Requests (machine : Machine) (main : TaskId) (effect : Effect) : System → Driver → Stack → Prop
  | computation {run : Run} {resume : Outcome → Body} (driver : Driver) (asks : run.Asks effect resume) :
      Requests machine main effect (.driving main driver run) driver (Machine.asking run resume).stack
  | client {host : Host} {context : Context} {resume : Outcome → Body}
      (hstart : machine.registry.hasHandlers Kind.start = false) :
      Requests machine main effect { host, current := some (main, .client (.evaluate context (.perform effect resume))) }
        (.client resume) { context, signal := none }

namespace Requests

variable {machine : Machine} {main : TaskId} {effect : Effect} {system : System} {driver : Driver} {stack : Stack}

theorem calm (requests : Requests machine main effect system driver stack) : Run.Calm { stack, host := system.host } := by
  cases requests with
  | computation driver asks => exact asks.calm
  | client hstart => exact .inr rfl

theorem going (requests : Requests machine main effect system driver stack) : stack.top.isFinished = false := by
  cases requests <;> rfl

theorem running (requests : Requests machine main effect system driver stack) :
    ∃ activity, system.current = some (main, activity) := by
  cases requests <;> exact ⟨_, rfl⟩

/-- A computation is run on the stack for the effect. -/
theorem pushes (requests : Requests machine main effect system driver stack) {computation : Computation}
    {tag : Option HandlerTag} (hpushes : machine.Pushes main effect computation tag)
    (hquiet : (Act.performed effect).call? = none) :
    ∃ trace later, Scheduled machine system trace
        (.driving main driver { stack := stack.push (.ofComputation computation tag), host := later }) ∧
      callsIn trace = [] ∧ system.host.Still main later := by
  cases requests with
  | @computation run resume driver asks =>
      obtain ⟨parent, rest, hbelow⟩ := List.exists_cons_of_ne_nil asks.above
      obtain ⟨later, hasks, still⟩ := Scheduled.of_goesTo ((GoesTo.start machine main run.stack run.host).pushes asks.calm
        hbelow asks.progress asks.kept hpushes) driver
      refine ⟨_, later, hasks, ?_, still⟩
      rw [callsIn_own, List.nil_append, List.filterMap_cons_none hquiet]
      rfl
  | @client host context resume hstart =>
      obtain ⟨later, still, hhandles, hacts⟩ := hpushes { stack := { context, signal := none }, host }
      have hsubmits : machine.submission effect = effect := by simp [Machine.submission, hstart]
      have hstep : ({ host, current := some (main, .client (.evaluate context (.perform effect resume))) } : System).step
          machine = some (.driving main (.client resume) (Run.proceed main
            { stack := Stack.push { context, signal := none } (.ofComputation computation tag), host := later })) := by
        show some (System.settleIn main (.moved
          (.run (machine.handle (machine.submission effect) { stack := { context, signal := none }, host }).stack resume)
          (machine.handle (machine.submission effect) { stack := { context, signal := none }, host }).host)) = _
        rw [hsubmits, hhandles]
        rfl
      have hdoes : ({ host, current := some (main, .client (.evaluate context (.perform effect resume))) } : System).acts
          machine = [(main, .pushed computation tag)] := by
        show (machine.handleActs (machine.submission effect) { stack := { context, signal := none }, host }).map _ = _
        rw [hsubmits, hacts]
        rfl
      refine ⟨_, _, .single hstep, ?_, still.trans (.proceed main later)⟩
      rw [hdoes]
      rfl

end Requests

namespace Concurrent

/-- The kind of the operation `all`. -/
def joining : String :=
  Kind.under Kind.concurrent "all"

/-- `all` is served by its plugin. -/
structure Offered (machine : Machine) : Prop where
  handled : ∃ others, machine.registry.handlersOf joining = .ofHandle (fun operation _ => allComputation operation) :: others
  unchecked : machine.registry.validator? joining = none

theorem Offered.pushes_all {machine : Machine} (offered : Offered machine) (task : TaskId) (effects : List Effect) :
    machine.Pushes task (all effects) (allComputation (all effects)) (some ⟨joining, 0⟩) := by
  obtain ⟨others, hhandlers⟩ := offered.handled
  have hvalid : machine.registry.validate (all effects) = .done none := by
    have hunchecked : machine.registry.validator? (Kind.under Kind.concurrent "all") = none := offered.unchecked
    simp [all, Registry.validate, Registry.validateOne, Registry.terminalRefusal, Effect.kind, hunchecked]
  exact fun run => ⟨_, .emit task _ _, Machine.handle_of_handler hvalid rfl hhandlers run,
    Machine.handleActs_of_handler hvalid hhandlers run⟩

end Concurrent

namespace Batch

open Concurrent

namespace Burst

/-- The system that invokes the function for calls that were made on some host. -/
def invokingFor (burst : Burst) (machine : Machine) (context : Context) (tuples : List (List Value)) (before host : Host) :
    System :=
  burst.invoking machine context before.processes.length before.batches.slots.length tuples host

/-- The system in which the function has returned results for calls that were made on some host. -/
def returningFor (burst : Burst) (context : Context) (tuples : List (List Value)) (results : List Value) (before host : Host) :
    System :=
  burst.returning context before.processes.length before.batches.slots.length tuples results host

end Burst

/-- The tasks of calls that were made on some host. -/
def tasksFor (tuples : List (List Value)) (before : Host) : List TaskId :=
  tasksFrom before.processes.length tuples.length

variable {burst : Burst} {machine : Machine} {main : TaskId} {system : System} {driver : Driver} {stack : Stack}
variable {tuples : List (List Value)}

/-- `all` is requested: the function is invoked once for all calls, and everybody else waits. -/
theorem Burst.Served.invokes_once_of_requests (served : burst.Served machine) (offered : Concurrent.Offered machine)
    (requests : Requests machine main (all (tuples.map burst.call)) system driver stack) (idle : burst.Idle system.host)
    (hperforms : ∀ args ∈ tuples, burst.Performs machine args) (hsome : tuples ≠ [])
    (hmain : main.index < system.host.processes.length) :
    ∃ trace later, Scheduled machine system trace (burst.invokingFor machine stack.context tuples system.host later) ∧
      callsIn trace = [.call burst.function (tuples.map Value.list)] ∧
      burst.Awaited stack.context main driver stack (some ⟨joining, 0⟩) system.host.processes.length
        system.host.batches.slots.length tuples.length (burst.invokingFor machine stack.context tuples system.host later) := by
  obtain ⟨asking, asked, hasks, hquiet, still⟩ := requests.pushes (offered.pushes_all main (tuples.map burst.call)) rfl
  have hidle : burst.Idle asked :=
    ⟨still.scheduled.trans idle.scheduled, still.ready.trans idle.ready, still.yielded.trans idle.yielded,
      by rw [still.batches]; exact idle.closed⟩
  obtain ⟨trace, later, scheduled, hcalls, awaited⟩ := served.invokes_once (some ⟨joining, 0⟩) hperforms hsome
    driver (still.calm requests.calm) hidle (by rw [still.processes]; exact hmain)
  rw [still.processes, still.batches] at scheduled awaited
  rw [allComputation_all] at hasks
  refine ⟨_, later, hasks.trans scheduled, ?_, awaited⟩
  rw [callsIn_append, hcalls, hquiet]
  rfl

/-- After the function has returned results, `all` comes to the list of them. -/
structure Joins (burst : Burst) (machine : Machine) (main : TaskId) (before : Host) (driver : Driver) (stack : Stack)
    (tuples : List (List Value)) (results : List Value) (invoking : Trace) (returned : Host) (rest : Trace) (last : Host) :
    Prop where
  joined : Scheduled machine (burst.returningFor stack.context tuples results before returned) rest
    (.driving main driver { stack := told stack (.list results), host := last })
  /-- Those who take part call nothing on the way. -/
  quiet : ∀ task ∈ main :: tasksFor tuples before, (deeds rest task).filterMap Act.call? = []
  /-- While the function was running, they did nothing but wait, apart from the one that runs it. -/
  waiting : ∀ task ∈ main :: tasksFor tuples before, task ≠ ⟨before.processes.length⟩ → OnlyWaits (deeds invoking task)

/-- Some calls are one invocation of their function, which begins on the host `invoked`. -/
structure Coalesces (burst : Burst) (machine : Machine) (main : TaskId) (system : System) (driver : Driver) (stack : Stack)
    (tuples : List (List Value)) (trace : Trace) (invoked : Host) : Prop where
  invokes : Scheduled machine system trace (burst.invokingFor machine stack.context tuples system.host invoked)
  once : callsIn trace = [.call burst.function (tuples.map Value.list)]
  /-- If the function returns one result for each call, and nobody disturbs those who take part from then on, `all` comes to
  the list of results. -/
  joins : ∀ more results returned, Scheduled machine (burst.invokingFor machine stack.context tuples system.host invoked) more
      (burst.returningFor stack.context tuples results system.host returned) → results.length = tuples.length →
    (burst.returningFor stack.context tuples results system.host returned).Undisturbed machine
      (tasksFor tuples system.host) →
    ∃ rest last, Joins burst machine main system.host driver stack tuples results more returned rest last

/-- Some calls of a batched function without a window and with one key are made together, when nobody else can run and no
batch of their group is open.  Then the function behind is invoked, once, with the argument lists of all calls in order,
before anybody calls anything else.  If it returns one result for each call, `all` comes to the list of results, as long as
nobody keeps the thread for ever and no call is canceled.  On the way those who take part call nothing, apart from the
function itself. -/
theorem coalesced_once {underlying : Nat → Function} {first : Host} {history : Trace} (setting : Setting machine underlying)
    (served : burst.Served machine) (offered : Concurrent.Offered machine)
    (hperforms : ∀ args ∈ tuples, burst.Performs machine args) (hsome : tuples ≠ []) (fresh : Fresh underlying first)
    (runs : Runs machine first history system) (idle : burst.Idle system.host)
    (requests : Requests machine main (all (tuples.map burst.call)) system driver stack) :
    ∃ trace invoked, Coalesces burst machine main system driver stack tuples trace invoked := by
  have hsound := runs.sound
  have hmain : main.index < system.host.processes.length := by
    obtain ⟨activity, hcurrent⟩ := requests.running
    obtain ⟨process, hprocess, -⟩ := hsound _ _ hcurrent
    exact (List.getElem?_eq_some_iff.1 hprocess).1
  obtain ⟨trace, invoked, hinvokes, hcalls, awaited⟩ :=
    served.invokes_once_of_requests offered requests idle hperforms hsome hmain
  refine ⟨trace, invoked, hinvokes, hcalls, fun more results returned hreturns hlength undisturbed => ?_⟩
  have hlater := (hinvokes.trans hreturns).sound hsound
  -- the flush owes all calls an answer
  have hpending : ∀ index, index < tuples.length →
      returned.batches.slots[system.host.batches.slots.length + index]? = some .pending := by
    intro index hless
    have hdriven := System.activity?_current hlater rfl
    refine setting.pending_of_answerable fresh ((hinvokes.trans hreturns).runs runs)
      (congrArg (Option.bind · Activity.stack?) hdriven) rfl ?_
    exact List.mem_map.2 ⟨_, List.mem_of_getElem? (getElem?_enrolledFrom (List.getElem?_eq_getElem hless)), rfl⟩
  obtain ⟨hawaited, hwaits, hothers⟩ := awaited.until_return (List.length_pos_iff.2 hsome) hreturns
    (hinvokes.sound hsound) hpending
  obtain ⟨rest, last, hrest, hquiet⟩ := hawaited.completes hlater hlength requests.going undisturbed
  refine ⟨rest, last, hrest, hquiet, List.forall_mem_cons.2 ⟨fun _ => hwaits, fun task hmem hother => ?_⟩⟩
  obtain ⟨hfrom, hto⟩ := mem_tasksFrom.1 hmem
  obtain ⟨index, hindex⟩ := Nat.exists_eq_add_of_le hfrom
  obtain rfl : task = ⟨system.host.processes.length + index⟩ := congrArg TaskId.mk hindex
  refine hothers index (Nat.pos_of_ne_zero ?_) (by simpa using hto)
  rintro rfl
  exact hother rfl

/-! ## Two calls -/

section Plain

variable {underlying : Nat → Function} {passed : BatchGroup → Prop}

theorem plain_signalEach {rest : List TaskId → Body} (hrest : ∀ asked, (rest asked).Plain underlying passed)
    (tasks : List TaskId) : (signalEach tasks rest).Plain underlying passed := by
  induction tasks generalizing rest with
  | nil => exact hrest []
  | cons task tasks ih =>
      refine ⟨rfl, fun settled => ?_⟩
      cases settled with
      | true => exact ih hrest
      | false => exact ⟨rfl, fun _ => ⟨rfl, fun _ => ih fun asked => hrest (task :: asked)⟩⟩

theorem plain_cancelEach (tasks : List TaskId) {rest : List Error → Body}
    (hrest : ∀ failures, (rest failures).Plain underlying passed) : (cancelEach tasks rest).Plain underlying passed := by
  refine plain_signalEach (fun asked => ?_) tasks
  exact ⟨rfl, fun outcomes => hrest _⟩

theorem plain_forkEach {rest : List TaskId → Body} (hrest : ∀ tasks, (rest tasks).Plain underlying passed)
    {effects : List Effect} (hfair : Effect.AllFair underlying passed effects) (tasks : List TaskId) :
    (forkEach tasks rest effects).Plain underlying passed := by
  induction effects generalizing tasks with
  | nil => exact hrest tasks
  | cons effect effects ih =>
      refine ⟨hfair.1, fun answer => ?_⟩
      cases answer with
      | error error => trivial
      | ok value =>
          dsimp only
          cases value.intoTask with
          | ok task => exact ih hfair.2 _
          | error error => trivial

theorem fair_of_effectsOf {operation : Effect} {effects : List Effect} (hfair : operation.Fair underlying passed)
    (heffects : effectsOf operation = .ok effects) : Effect.AllFair underlying passed effects := by
  unfold effectsOf at heffects
  split at heffects
  · rename_i hpayload
    cases heffects
    unfold Effect.intoPayload at hpayload
    split at hpayload
    · split at hpayload
      · cases hpayload
        exact hfair
      · cases hpayload
    · cases hpayload
  · cases heffects
    trivial
  · cases heffects

/-- `all` forks what it is given, and takes no part in batches. -/
theorem fair_allComputation {operation : Effect} (hfair : operation.Fair underlying passed) :
    (allComputation operation).Fair underlying passed := by
  refine .inl ?_
  cases heffects : effectsOf operation with
  | error error => trivial
  | ok effects =>
      refine plain_forkEach (fun tasks => ?_) (fair_of_effectsOf hfair heffects) []
      refine ⟨rfl, fun answer => ?_⟩
      cases answer with
      | ok values => trivial
      | error error => exact plain_cancelEach tasks fun failures => trivial

end Plain

/-- A machine that serves `all`, whose batched function returns the arguments of all its calls. -/
def echoingTogether : Machine :=
  batching 0 [(joining, .ofHandle fun operation _ => allComputation operation)] fun args => .ok (.list args)

/-- Calls of the batched function. -/
def gathered : Burst :=
  ⟨⟨1, "b"⟩, shared, ⟨0, 0, .str "k"⟩⟩

/-- A client that makes two calls together. -/
def couple : Host :=
  callers [(.blank 0, .perform (all ([[.int 1], [.int 2]].map gathered.call)) .done)]

/-- The client is about to do so. -/
def coupling : System :=
  (({ host := couple } : System).execute echoingTogether 1).2

theorem setting_echoingTogether : Setting echoingTogether fun _ => shared :=
  setting_batching (List.forall_mem_singleton.2 fun _ _ _ hfair => fair_allComputation hfair) fun _ _ => trivial

theorem served_gathered : gathered.Served echoingTogether where
  execute := rfl
  fork := rfl
  call := rfl
  calls := rfl
  forks := rfl
  truthy := rfl
  handled := ⟨_, rfl⟩
  unchecked := rfl

theorem fresh_couple : Fresh (fun _ => shared) couple :=
  fresh_callers <| List.forall_mem_singleton.2 fun _ => ⟨⟨trivial, trivial, trivial⟩, fun _ => trivial⟩

theorem runs_coupling : Runs echoingTogether couple (({ host := couple } : System).execute echoingTogether 1).1 coupling :=
  (Runs.start (new_callers _)).execute 1

theorem requests_coupling : Requests echoingTogether ⟨0⟩ (all ([[.int 1], [.int 2]].map gathered.call)) coupling (.client .done)
    { context := .blank 0, signal := none } :=
  .client rfl

/-- A system that comes to an end without a cancellation is undisturbed at any time before. -/
theorem undisturbed_of_ended {machine : Machine} {system later : System} {trace : Trace} {tasks : List TaskId}
    (scheduled : Scheduled machine system trace later) (hsound : system.Sound) (steps : Nat)
    (hends : ((system.execute machine steps).2.step machine).isNone = true)
    (hcalm : tasks.any (system.execute machine steps).2.host.isCanceled = false) : later.Undisturbed machine tasks := by
  have hnone : (system.execute machine steps).2.step machine = none := by simpa using hends
  -- whatever happens later happens before the end
  have hbefore {more : Trace} {middle : System} (hmore : Scheduled machine later more middle) :
      ∃ rest, Scheduled machine middle rest (system.execute machine steps).2 := by
    rcases (scheduled.trans hmore).total (.execute machine system steps) with ⟨rest, hrest, -⟩ | ⟨rest, hrest, -⟩
    · exact ⟨rest, hrest⟩
    · rcases hrest.first_step with ⟨-, hsame⟩ | ⟨next, _, hstep, -⟩
      · exact ⟨[], hsame ▸ .start⟩
      · cases hnone.symm.trans hstep
  refine ⟨fun more middle hmore => ?_, fun more middle hmore task hmem => ?_⟩
  · obtain ⟨rest, hrest⟩ := hbefore hmore
    obtain ⟨further, hfurther⟩ := hrest.exists_execute
    refine ⟨further, ?_⟩
    rw [hfurther]
    unfold System.step at hnone
    split at hnone
    · cases hnone
    · cases hnone
    · assumption
  · obtain ⟨rest, hrest⟩ := hbefore hmore
    have hlasts := hrest.cooperates.proceeds.lasts ((scheduled.trans hmore).sound hsound)
    cases hcanceled : middle.host.isCanceled task with
    | false => rfl
    | true => exact absurd (hlasts.canceled hcanceled) (List.any_eq_false.1 hcalm task hmem)

/-- The function returns the arguments of both calls. -/
theorem returns_gathered (context : Context) (tuples : List (List Value)) (before : Host) {invoked : Host}
    (hcalm : invoked.isCanceled ⟨before.processes.length⟩ = false) :
    ∃ trace returned, Scheduled echoingTogether (gathered.invokingFor echoingTogether context tuples before invoked) trace
      (gathered.returningFor context tuples (tuples.map Value.list) before returned) := by
  have hinvoke : echoingTogether.invoke gathered.function (tuples.map Value.list) =
      ⟨some "f", .ok (.list (tuples.map Value.list))⟩ := rfl
  have hbegins := (GoesTo.start echoingTogether ⟨before.processes.length⟩
    ((gathered.opener context ⟨before.processes.length⟩ ⟨before.batches.slots.length⟩
      (.suspended (gathered.delivery (enrolledFrom before.batches.slots.length tuples))) (.ok .null)
      ((enrolledFrom before.batches.slots.length tuples).map Enrolled.slot)).push
        (.ofComputation ⟨some "f", .ok (.list (tuples.map Value.list))⟩ none)) invoked).fresh (.inr hcalm) rfl rfl rfl
  obtain ⟨returned, hreturns, -⟩ := Scheduled.of_goesTo (hbegins.done rfl rfl rfl (List.forall_mem_nil _) rfl) .task
  exact ⟨_, returned, hreturns⟩

/-- Two calls that are made together are one invocation, and `all` comes to both results. -/
theorem coalesced_once_couple : ∃ trace invoked more returned rest last,
    Scheduled echoingTogether coupling trace
        (gathered.invokingFor echoingTogether (.blank 0) [[.int 1], [.int 2]] coupling.host invoked) ∧
      callsIn trace = [.call shared [.list [.int 1], .list [.int 2]]] ∧
      Scheduled echoingTogether (gathered.invokingFor echoingTogether (.blank 0) [[.int 1], [.int 2]] coupling.host invoked) more
        (gathered.returningFor (.blank 0) [[.int 1], [.int 2]] [.list [.int 1], .list [.int 2]] coupling.host returned) ∧
      Scheduled echoingTogether
        (gathered.returningFor (.blank 0) [[.int 1], [.int 2]] [.list [.int 1], .list [.int 2]] coupling.host returned) rest
        (.driving ⟨0⟩ (.client .done)
          { stack := told { context := .blank 0, signal := none } (.list [.list [.int 1], .list [.int 2]]), host := last }) := by
  obtain ⟨trace, invoked, hinvokes, hcalls, hcompletes⟩ := coalesced_once setting_echoingTogether served_gathered ⟨⟨_, rfl⟩, rfl⟩
    (fun _ _ => rfl) (by simp) fresh_couple runs_coupling ⟨rfl, rfl, rfl, rfl⟩ requests_coupling
  have undisturbed {later : System} {more : Trace} (scheduled : Scheduled echoingTogether coupling more later) :
      later.Undisturbed echoingTogether [⟨1⟩, ⟨2⟩] :=
    undisturbed_of_ended scheduled runs_coupling.sound 60 (by decide +kernel) (by decide +kernel)
  obtain ⟨more, returned, hreturns⟩ := returns_gathered (.blank 0) [[.int 1], [.int 2]] coupling.host
    ((undisturbed hinvokes).calm _ _ .start ⟨1⟩ List.mem_cons_self)
  obtain ⟨rest, last, joins⟩ := hcompletes more _ returned hreturns rfl (undisturbed (hinvokes.trans hreturns))
  exact ⟨trace, invoked, more, returned, rest, last, hinvokes, hcalls, hreturns, joins.joined⟩

end Batch
end EffectMachine
