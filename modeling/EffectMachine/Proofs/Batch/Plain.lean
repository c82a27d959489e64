import EffectMachine.Batch.Plugin
import EffectMachine.Proofs.Interleaving.Forks

/-!
# Programs that leave batches to the plugin

Only the batch plugin enrolls calls, collects them and answers them, and only the call that opens a batch makes a
flush.  All other programs may call batched functions, and they may pass on the flushes that they meet as effects,
but they take no part in batches by themselves.

* `Body.Plain` says so of a body, whatever it is resumed with; `Effect.Fair` says of an effect that what it carries
  is plain or a flush that is passed on, and that a batched call names the one function that its definition stands
  for.
* `Batch.Setting` is a machine of such programs, with any plugins.
* `Act.Fair` is what fair effects and the launches of flushes can lead to, as `Batch.Setting.fair_handleActs` and
  `Batch.Setting.fair_launched` show.
-/

namespace EffectMachine

/-- Whether an action takes part in batches. -/
def Action.isBatch : Action → Bool
  | .enroll .. | .collect _ | .abandon _ | .answer .. | .receive _ => true
  | _ => false

namespace Batch

/-- The effect by which the call that opened a batch launches its flush. -/
def launch (group : BatchGroup) (function : Function) (window : Nat) : Effect :=
  if window = 0 then .bare (flush group function window) else .fork (.bare (flush group function window))

end Batch

mutual

/-- A body takes no part in batches by itself, and performs fair effects only. -/
def Body.Plain (underlying : Nat → Function) (passed : BatchGroup → Prop) : Body → Prop
  | .done _ => True
  | .perform effect resume => effect.Fair underlying passed ∧ ∀ answer, (resume answer).Plain underlying passed
  | .act action resume => action.isBatch = false ∧ ∀ reply, (resume reply).Plain underlying passed
termination_by structural body => body

/-- A computation has a plain body, or is a flush that may be passed on. -/
def Computation.Fair (underlying : Nat → Function) (passed : BatchGroup → Prop) : Computation → Prop
  | ⟨name, body⟩ =>
    body.Plain underlying passed ∨ ∃ group window, passed group ∧
      (⟨name, body⟩ : Computation) = Batch.flush group (underlying group.definition) window
termination_by structural computation => computation

/-- A payload carries fair effects, and a batched call names the function that its definition stands for. -/
def Payload.Fair (underlying : Nat → Function) (passed : BatchGroup → Prop) : Payload → Prop
  | .effects effects => Effect.AllFair underlying passed effects
  | .batchCall definition function _ _ => function = underlying definition
  | .unit | .text _ | .int _ | .value _ => True
termination_by structural payload => payload

/-- An effect is fair if everything that it carries is. -/
def Effect.Fair (underlying : Nat → Function) (passed : BatchGroup → Prop) : Effect → Prop
  | .bare computation | .execute computation => computation.Fair underlying passed
  | .fork effect | .start effect | .defer effect | .terminal effect | .next effect _ =>
    effect.Fair underlying passed
  | .custom _ payload => payload.Fair underlying passed
  | .call .. | .recover | .generator => True
termination_by structural effect => effect

/-- All of some effects are fair. -/
def Effect.AllFair (underlying : Nat → Function) (passed : BatchGroup → Prop) : List Effect → Prop
  | [] => True
  | effect :: effects => effect.Fair underlying passed ∧ Effect.AllFair underlying passed effects
termination_by structural effects => effects

end

mutual

/-- An errand is plain if its bodies are. -/
def Errand.Plain (underlying : Nat → Function) (passed : BatchGroup → Prop) : Errand → Prop
  | .evaluate _ body => body.Plain underlying passed
  | .join errands => Errand.AllPlain underlying passed errands
termination_by structural errand => errand

/-- All of some errands are plain. -/
def Errand.AllPlain (underlying : Nat → Function) (passed : BatchGroup → Prop) : List Errand → Prop
  | [] => True
  | errand :: errands => errand.Plain underlying passed ∧ Errand.AllPlain underlying passed errands
termination_by structural errands => errands

end

namespace Batch

/-- A computation is the flush of a group. -/
def Flushes (underlying : Nat → Function) (computation : Computation) : Prop :=
  ∃ group window, computation = flush group (underlying group.definition) window

/-- An effect launches the flush of a group. -/
def Launches (underlying : Nat → Function) (effect : Effect) : Prop :=
  ∃ group window, effect = launch group (underlying group.definition) window

end Batch

/-- A body performs fair effects and launches flushes only; it may take part in batches. -/
inductive Body.Fair (underlying : Nat → Function) (passed : BatchGroup → Prop) : Body → Prop
  | done (outcome : Outcome) : Body.Fair underlying passed (.done outcome)
  | perform {effect : Effect} {resume : Outcome → Body}
      (heffect : effect.Fair underlying passed ∨ Batch.Launches underlying effect)
      (hresume : ∀ answer, Body.Fair underlying passed (resume answer)) :
      Body.Fair underlying passed (.perform effect resume)
  | act {action : Action} {resume : action.Reply → Body}
      (hresume : ∀ reply, Body.Fair underlying passed (resume reply)) : Body.Fair underlying passed (.act action resume)

section Fair

variable {underlying : Nat → Function} {passed : BatchGroup → Prop}

/-- A plain body is fair. -/
theorem Body.Plain.fair : ∀ {body : Body}, body.Plain underlying passed → body.Fair underlying passed
  | .done outcome, _ => .done outcome
  | .perform _ _, hplain => .perform (.inl hplain.1) fun answer => (hplain.2 answer).fair
  | .act _ _, hplain => .act fun reply => (hplain.2 reply).fair

/-- The operation that a fair effect stands for is fair. -/
theorem Effect.Fair.operation {effect : Effect} (hfair : effect.Fair underlying passed) :
    effect.operation.Fair underlying passed := by
  cases effect <;> exact hfair

/-- All errands of a list are plain if the list is. -/
theorem Errand.plain_of_mem {errands : List Errand} {errand : Errand}
    (hplain : Errand.AllPlain underlying passed errands) (hmem : errand ∈ errands) :
    errand.Plain underlying passed := by
  induction errands with
  | nil => cases hmem
  | cons first rest ih =>
      rcases List.mem_cons.1 hmem with rfl | hrest
      · exact hplain.1
      · exact ih hplain.2 hrest

namespace Batch

/-- Answering calls performs nothing. -/
theorem fair_answerEach (answers : List (Slot × Outcome)) :
    Body.Fair underlying passed (answerEach (.ok .null) answers) := by
  induction answers with
  | nil => exact .done _
  | cons first answers ih => exact .act fun _ => ih

/-- A flush performs nothing but the call of its function. -/
theorem fair_flushNow (group : BatchGroup) (function : Function) :
    Body.Fair underlying passed (flushNow group function) := by
  refine .act fun calls => .act fun _ => .perform (.inl trivial) fun returned => ?_
  dsimp only
  split
  · exact fair_answerEach _
  · exact .act fun _ => fair_answerEach _

theorem fair_flush_body (group : BatchGroup) (function : Function) (window : Nat) :
    Body.Fair underlying passed (flush group function window).body := by
  have hnow : Body.Fair underlying passed (flushNow group function) := fair_flushNow group function
  unfold flush Computation.named
  split
  · exact .act fun _ => hnow
  · refine .act fun reply => ?_
    cases reply with
    | none => exact hnow
    | some timer => exact .act fun _ => hnow

/-- A call that runs alone performs nothing but the call of its function. -/
theorem fair_alone (function : Function) (args : List Value) :
    Body.Fair underlying passed (alone function args) := by
  refine .act fun _ => .perform (.inl trivial) fun answer => ?_
  dsimp only
  split <;> exact .done _

/-- Waiting for an answer performs nothing. -/
theorem fair_awaitAnswer (slot : Slot) : Body.Fair underlying passed (awaitAnswer slot) := by
  refine .act fun reply => ?_
  cases reply <;> exact .done _

/-- A call that takes part in a batch performs nothing but the launch of the flush. -/
theorem fair_enrolled (group : BatchGroup) (window : Nat) (args : List Value) :
    Body.Fair underlying passed (enrolled group (underlying group.definition) window args) := by
  have hlaunch : Launches underlying (launch group (underlying group.definition) window) := ⟨group, window, rfl⟩
  refine .act fun enrolment => ?_
  split
  · refine .act fun _ => ?_
    split
    · rename_i hwindow
      rw [launch, if_pos hwindow] at hlaunch
      refine .perform (.inr hlaunch) fun answer => ?_
      cases answer with
      | ok value => exact fair_awaitAnswer _
      | error error => exact .done _
    · rename_i hwindow
      rw [launch, if_neg hwindow] at hlaunch
      refine .perform (.inr hlaunch) fun answer => ?_
      cases answer with
      | ok value => exact fair_awaitAnswer _
      | error error => exact .act fun _ => .done _
  · exact fair_awaitAnswer _

/-- The payload of a fair batched call names the function that its definition stands for. -/
theorem function_of_intoPayload {operation : Effect} {definition : Nat} {function : Function} {key : Option BatchKey}
    {args : List Value} (hfair : operation.Fair underlying passed)
    (hpayload : operation.intoPayload .batchCall = .ok (.batchCall definition function key args)) :
    function = underlying definition := by
  unfold Effect.intoPayload at hpayload
  split at hpayload
  · split at hpayload
    · cases hpayload
      exact hfair
    · cases hpayload
  · cases hpayload

/-- Serving a batched call performs fair effects and launches a flush. -/
theorem fair_handle (batcher window : Nat) {operation : Effect} (hfair : operation.Fair underlying passed) :
    Body.Fair underlying passed (handle batcher window operation).body := by
  unfold handle Computation.named
  split
  · exact .done _
  · rename_i definition function key args hpayload
    split
    · exact fair_alone _ _
    · rw [function_of_intoPayload hfair hpayload]
      exact fair_enrolled _ window args
  · exact .done _

end Batch

/-- What a fair computation does is fair. -/
theorem Computation.Fair.body {computation : Computation} (hfair : computation.Fair underlying passed) :
    computation.body.Fair underlying passed := by
  obtain ⟨name, body⟩ := computation
  rcases hfair with hplain | ⟨group, window, -, hflush⟩
  · exact hplain.fair
  · rw [hflush]
    exact Batch.fair_flush_body group _ window

end Fair

namespace Batch

/-- A machine with plain functions and any plugins, whose handlers serve batched calls or do nothing about batches
but to pass on the flushes that they are given. -/
structure Setting (machine : Machine) (underlying : Nat → Function) : Prop where
  plugins : ∀ entry ∈ machine.registry.handlers,
    (∀ passed operation context, operation.Fair underlying passed →
      (entry.2.handle operation context).Fair underlying passed) ∨
    ∃ batcher window, entry.2.handle = fun operation _ => handle batcher window operation
  library : ∀ passed function args, (machine.library.body function args).body.Plain underlying passed

/-- A host of clients that have not come yet, on which no batch was ever opened. -/
structure Fresh (underlying : Nat → Function) (first : Host) : Prop where
  clients : ∀ process ∈ first.processes, ∃ errand, process.activity = .client errand ∧
    ∀ passed, errand.Plain underlying passed
  batches : first.batches = {}

/-- Nobody passes a flush on. -/
def withheld (_ : BatchGroup) : Prop :=
  False

/-- No plugin handles the running and the forking of computations. -/
structure Unintercepted (machine : Machine) : Prop where
  execute : machine.registry.hasHandlers Kind.execute = false
  fork : machine.registry.hasHandlers Kind.fork = false

/-- A computation is one that a fair effect can lead to: it is fair, or serves a batched call. -/
def Serviceable (underlying : Nat → Function) (passed : BatchGroup → Prop) (computation : Computation) : Prop :=
  computation.Fair underlying passed ∨
    ∃ batcher window operation, operation.Fair underlying passed ∧ computation = handle batcher window operation

/-- The computation of a frame is fair, or takes part in a batch: it is a flush, or serves a batched call. -/
def Runnable (underlying : Nat → Function) (passed : BatchGroup → Prop) (computation : Computation) : Prop :=
  computation.Fair underlying passed ∨ Flushes underlying computation ∨
    ∃ batcher window operation, operation.Fair underlying passed ∧ computation = handle batcher window operation

variable {underlying : Nat → Function} {passed : BatchGroup → Prop}

theorem Runnable.body {computation : Computation} (hrunnable : Runnable underlying passed computation) :
    computation.body.Fair underlying passed := by
  rcases hrunnable with hfair | ⟨group, window, rfl⟩ | ⟨batcher, window, operation, hfair, rfl⟩
  · exact hfair.body
  · exact fair_flush_body group _ window
  · exact fair_handle batcher window hfair

end Batch

/-- Acts that hand on nothing but fair effects and flushes that are launched, and push nothing but what these may
lead to. -/
def Act.Fair (underlying : Nat → Function) (passed : BatchGroup → Prop) : Act → Prop
  | .pushed computation _ => Batch.Runnable underlying passed computation
  | .performed effect => effect.Fair underlying passed ∨ Batch.Launches underlying effect
  | .forked effect =>
    effect.Fair underlying passed ∨ ∃ computation, Batch.Flushes underlying computation ∧ effect = .bare computation
  | .deferred effect | .started effect => effect.Fair underlying passed
  | _ => True

/-- Acts that handling a fair effect can lead to. -/
def Act.Ordinary (underlying : Nat → Function) (passed : BatchGroup → Prop) : Act → Prop
  | .pushed computation _ => Batch.Serviceable underlying passed computation
  | .forked effect | .deferred effect => effect.Fair underlying passed
  | .performed _ | .started _ => False
  | _ => True

theorem Act.Ordinary.fair {underlying : Nat → Function} {passed : BatchGroup → Prop} {act : Act}
    (hordinary : act.Ordinary underlying passed) : act.Fair underlying passed := by
  cases act with
  | pushed computation tag => exact hordinary.imp id .inr
  | forked effect => exact .inl hordinary
  | deferred effect => exact hordinary
  | performed | started => exact hordinary.elim
  | _ => trivial

namespace Batch.Setting

variable {machine : Machine} {underlying : Nat → Function} {passed : BatchGroup → Prop}
variable (setting : Setting machine underlying)

section Handling

include setting

/-- A handler that services a fair operation is fair, or serves a batched call. -/
theorem serviceable_of_select {operation : Effect} {context : Context} {first index : Nat}
    {handler : Handler} {host later : Host} (hfair : operation.Fair underlying passed)
    (hfound : host.run (machine.registry.select operation context first) = (some (index, handler), later)) :
    Serviceable underlying passed (handler.handle operation context) := by
  obtain ⟨kind, hentry⟩ := Registry.mem_of_select hfound
  rcases setting.plugins _ hentry with hhandler | ⟨batcher, window, hhandler⟩
  · exact .inl (hhandler passed operation context hfair)
  · exact .inr ⟨batcher, window, operation, hfair, congrFun (congrFun hhandler operation) context⟩

/-- The computation of an invocation is fair. -/
theorem fair_invoke (function : Function) (args : List Value) :
    (machine.invoke function args).Fair underlying passed :=
  .inl (setting.library passed function args)

/-- Dispatching a fair effect does nothing but ordinary acts. -/
theorem ordinary_of_dispatches {effect : Effect} {first : Nat} {run : Run} {act : Act}
    (dispatches : machine.Dispatches effect first run act) (hfair : effect.Fair underlying passed) :
    act.Ordinary underlying passed := by
  induction dispatches with
  | handler hselect => exact setting.serviceable_of_select hfair.operation hselect
  | bare | execute => exact .inl hfair
  | call => exact .inl (setting.fair_invoke _ _)
  | fork | defer => exact hfair
  | start _ ih | terminated _ _ ih | next _ _ ih | replaced _ _ _ ih => exact ih hfair
  | _ => trivial

/-- Handling a fair effect does nothing but ordinary acts. -/
theorem ordinary_handleActs {effect : Effect} (run : Run) (hfair : effect.Fair underlying passed) :
    ∀ act ∈ machine.handleActs effect run, act.Ordinary underlying passed := by
  intro act hmem
  rcases Machine.dispatches_of_mem_handleActs hmem with ⟨error, rfl⟩ | ⟨host, dispatches⟩
  · trivial
  · exact setting.ordinary_of_dispatches dispatches hfair

/-- Handling a fair effect does nothing but fair acts. -/
theorem fair_handleActs {effect : Effect} (run : Run) (hfair : effect.Fair underlying passed) :
    ∀ act ∈ machine.handleActs effect run, act.Fair underlying passed :=
  fun act hmem => (setting.ordinary_handleActs run hfair act hmem).fair

end Handling

/-- Handling an effect that runs a flush, or launches one, does nothing but fair acts: the flush may be passed on, or
else nobody sees it. -/
theorem fair_launched (setting : Setting machine underlying) (hpassed : (∀ group, passed group) ∨ Unintercepted machine)
    {effect : Effect} (run : Run)
    (heffect : Launches underlying effect ∨ ∃ computation, Flushes underlying computation ∧ effect = .bare computation) :
    ∀ act ∈ machine.handleActs effect run, act.Fair underlying passed := by
  obtain ⟨computation, hflushes, heffect⟩ : ∃ computation, Flushes underlying computation ∧
      (effect = .bare computation ∨ effect = .fork (.bare computation)) := by
    rcases heffect with ⟨group, window, rfl⟩ | ⟨computation, hflushes, rfl⟩
    · refine ⟨_, ⟨group, window, rfl⟩, ?_⟩
      unfold launch
      split
      · exact .inl rfl
      · exact .inr rfl
    · exact ⟨computation, hflushes, .inl rfl⟩
  rcases hpassed with hall | unintercepted
  · obtain ⟨group, window, rfl⟩ := hflushes
    have hfair : (flush group (underlying group.definition) window).Fair underlying passed :=
      .inr ⟨group, window, hall group, rfl⟩
    rcases heffect with rfl | rfl <;> exact setting.fair_handleActs run hfair
  · rcases heffect with rfl | rfl
    · rw [Machine.handleActs_bare unintercepted.execute]
      exact List.forall_mem_singleton.2 (.inr (.inl hflushes))
    · rcases Machine.handle_fork unintercepted.fork (.bare computation) run with ⟨error, hrefused, -⟩ | ⟨hforked, -⟩
      · rw [hrefused]
        exact List.forall_mem_singleton.2 trivial
      · rw [hforked]
        exact List.forall_mem_singleton.2 (.inr ⟨computation, hflushes, rfl⟩)

end Batch.Setting
end EffectMachine
