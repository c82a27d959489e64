import EffectMachine.Proofs.Dispatch.Selection
import EffectMachine.Proofs.Interleaving.Answers
import EffectMachine.Proofs.Interleaving.Execution

/-!
# Chains of delegations

A handler may delegate the operation that it services.  The next handler then does so in a frame of its own, and so on until
none is left and the core rule applies.

* `HandlesAt` is the moment at which a process handles an effect that a computation performs.
* `Act.Positioned` says that the tag of a frame is the position of the handler that the frame runs, and `Runs.positioned` that
  all tags are.
* `Delegates` says that a frame delegated an operation to another frame, and `Runs.ascends` that this goes up by position.
* `Layered` are the frames by which one operation is serviced, from the outside in, and `Runs.layered` says that an operation
  comes to what these frames make of what the core rule comes to.
-/

namespace EffectMachine

/-- The tag of a frame is the one it was pushed with. -/
def Tagged (acts : List Act) (number : Nat) (tag : Option HandlerTag) : Prop :=
  ∃ computation, .pushed computation tag ∈ life acts number

theorem Frame.Does.tag_eq {frame after : Frame} {act : Act} (hdoes : frame.Does act after) : after.tag = frame.tag := by
  cases hdoes with
  | notice =>
      unfold Frame.markCanceled
      split <;> rfl
  | _ => rfl

theorem Frame.Beside.tag_eq {frame after : Frame} {act : Act} (hbeside : frame.Beside act after) :
    after.tag = frame.tag := by
  cases hbeside with
  | marked =>
      unfold Frame.markCanceled
      split <;> rfl
  | _ => rfl

/-- Follows the tags of frames. -/
def tagged : Watch where
  kept := fun acts number frame => Tagged acts number frame.tag
  gone := fun _ _ => True
  fresh := fun computation _ hunborn hnext =>
    ⟨computation, (life_pushed hunborn hnext).symm ▸ List.mem_singleton.2 rfl⟩
  own := fun _ _ _ hdoes ⟨computation, hmem⟩ => ⟨computation, hdoes.tag_eq ▸ mem_life_append _ hmem⟩
  beside := fun _ _ _ hbeside ⟨computation, hmem⟩ => ⟨computation, hbeside.tag_eq ▸ mem_life_append _ hmem⟩
  drop := fun _ _ _ => trivial
  leave := fun _ _ _ _ _ => trivial
  stay := fun _ _ => trivial

/-! ## Positions -/

/-- A frame that is tagged runs the handler at the position of its tag. -/
def Act.Positioned (machine : Machine) : Act → Prop
  | .pushed computation (some tag) =>
    ∃ handler operation context, (machine.registry.handlersOf tag.kind)[tag.index]? = some handler ∧
      operation.kind = tag.kind ∧ computation = handler.handle operation context
  | _ => True

namespace Machine

theorem Dispatches.positioned {machine : Machine} {effect : Effect} {first : Nat} {run : Run} {act : Act}
    (dispatches : machine.Dispatches effect first run act) : act.Positioned machine := by
  induction dispatches with
  | @handler effect first run index handler later hselect =>
      refine ⟨handler, effect.operation, _, ?_, Effect.kind_operation effect, rfl⟩
      cases Registry.selects_iff.2 hselect with
      | handler _ hhandler => exact Effect.kind_operation effect ▸ hhandler
  | start _ ih | terminated _ _ ih | next _ _ ih | replaced _ _ _ ih => exact ih
  | _ => trivial

theorem positioned_handleActs (machine : Machine) (effect : Effect) (run : Run) :
    ∀ act ∈ machine.handleActs effect run, act.Positioned machine := by
  intro act hmem
  rcases dispatches_of_mem_handleActs hmem with ⟨error, rfl⟩ | ⟨host, dispatches⟩
  · trivial
  · exact dispatches.positioned

theorem positioned_stepActs (machine : Machine) (run : Run) :
    ∀ act ∈ machine.stepActs run, act.Positioned machine := by
  have hhandled (effect : Effect) : machine.HandlesOnly run.stack.context (Act.Positioned machine) effect :=
    fun later _ => machine.positioned_handleActs effect later
  refine forall_mem_stepActs (fun act hquiet => ?_) run (fun effect _ _ => ⟨trivial, hhandled effect⟩)
    fun _ _ effect _ => ⟨trivial, hhandled effect⟩
  cases act with
  | pushed => cases hquiet
  | _ => trivial

end Machine

section Processes

variable {machine : Machine} {first : Host} {trace : Trace} {system : System} {task : TaskId}

/-- The tag of every frame is the position of the handler that it runs. -/
theorem Runs.positioned (runs : Runs machine first trace system) (task : TaskId) :
    ∀ act ∈ deeds trace task, act.Positioned machine := by
  have hsteps : StepInvariant machine fun acts _ => ∀ act ∈ acts, act.Positioned machine :=
    { fresh := fun _ _ _ => List.forall_mem_nil _
      again := fun _ _ _ hall => hall
      later := fun _ hall => hall
      opened := fun effect hall => List.forall_mem_append.2 ⟨hall, machine.positioned_handleActs effect _⟩
      stepped := fun _ hall => List.forall_mem_append.2 ⟨hall, machine.positioned_stepActs _⟩ }
  obtain ⟨stack, hdrives⟩ := exists_drives (system.driven? task)
  exact runs.holds_steps hsteps task hdrives

/-- A frame has one tag. -/
theorem Runs.tag_unique (runs : Runs machine first trace system) {number : Nat} {tag other : Option HandlerTag}
    (htag : Tagged (deeds trace task) number tag) (hother : Tagged (deeds trace task) number other) : tag = other := by
  obtain ⟨computation, hmem⟩ := htag
  obtain ⟨second, hagain⟩ := hother
  obtain ⟨later, progress, hlife, hplays⟩ := runs.life_eq hmem
  rw [hlife] at hagain
  rcases List.mem_cons.1 hagain with hsame | hlater
  · cases hsame
    rfl
  · exact absurd hlater (hplays.not_mem_pushed second other)

/-- The tag of a handler is one of the positions of its kind. -/
theorem Runs.index_lt (runs : Runs machine first trace system) {number : Nat} {tag : HandlerTag}
    (htag : Tagged (deeds trace task) number (some tag)) :
    tag.index < (machine.registry.handlersOf tag.kind).length := by
  obtain ⟨computation, hmem⟩ := htag
  obtain ⟨handler, -, -, hhandler, -⟩ := runs.positioned task _ (mem_of_mem_life hmem)
  exact (List.getElem?_eq_some_iff.1 hhandler).1

/-! ## The moment of handling -/

/-- After some acts, a process handles an effect that the computation on top of its stack performs; `run` is what its stack
and the host are like then. -/
inductive HandlesAt (machine : Machine) (first : Host) (trace : Trace) (task : TaskId) (before : List Act)
    (effect : Effect) (run : Run) : Prop
  | intro {earlier rest : Trace} {seen : System} {stack : Stack} {resume : Outcome → Body}
      (runs : Runs machine first earlier seen) (htrace : trace = earlier ++ rest)
      (hbefore : before = deeds earlier task) (hdriven : seen.driven? task = some stack)
      (habove : stack.below ≠ []) (hrunning : stack.top.progress = .running (.perform effect resume))
      (hrun : run = Run.asking { stack, host := seen.host } resume)
      (hhandled : .performed effect :: machine.handleActs effect run <+: deeds rest task)

/-- Every effect that is performed is handled, unless a cancellation is noticed. -/
theorem Runs.handlesAt (runs : Runs machine first trace system) {before after : List Act} {effect : Effect}
    (hdeeds : deeds trace task = before ++ .performed effect :: after) :
    (∃ rest, after = .noticed :: rest) ∨ ∃ run rest, HandlesAt machine first trace task before effect run ∧
      after = machine.handleActs effect run ++ rest := by
  obtain ⟨opened, hmoves, proceeds, rfl, hown, rfl, rfl⟩ := runs.didByMove hdeeds
  rename_i earlier acts later seen next own rest
  obtain ⟨activity, following, host, hcurrent, hadvances, -⟩ := hmoves.advances_of_deeds opened.sound (by rw [hown]; simp)
  have hactivity := System.activity?_current opened.sound hcurrent
  have hkept (stack : Stack) (body : Body) (hstack : activity.stack? = some stack)
      (hrunning : stack.top.progress = .running body) : stack.top.cancellation = .none :=
    opened.kept_of_running (by rw [System.driven?, hactivity]; exact hstack) hrunning
  obtain ⟨rfl, rfl | ⟨stack, resume, hstack, habove, hrunning, rfl, -⟩⟩ := hadvances.performs hown hkept
  · exact .inl ⟨_, rfl⟩
  · refine .inr ⟨_, deeds later task, ⟨opened, List.append_assoc .., List.append_nil _, ?_, habove, hrunning, rfl, ?_⟩, rfl⟩
    · rw [System.driven?, hactivity]
      exact hstack
    · rw [deeds_append, hown]
      exact List.prefix_append _ _

namespace HandlesAt

variable {before : List Act} {effect : Effect} {run : Run}

theorem deeds_eq (handlesAt : HandlesAt machine first trace task before effect run) :
    ∃ after, deeds trace task = before ++ .performed effect :: (machine.handleActs effect run ++ after) := by
  obtain ⟨_, rfl, rfl, _, _, _, _, after, hhandled⟩ := handlesAt
  exact ⟨after, by rw [deeds_append, ← hhandled, List.cons_append]⟩

/-- The frame that performs the effect stands above another one and has the tag that it was pushed with. -/
theorem tagged (handlesAt : HandlesAt machine first trace task before effect run) {number : Nat}
    (hhead : (Roll.after before).live.head? = some number) :
    run.stack.below ≠ [] ∧ 0 < number ∧ Tagged (deeds trace task) number run.stack.top.tag := by
  obtain ⟨opened, rfl, rfl, hdriven, habove, -, rfl, -⟩ := handlesAt
  have watched := opened.holds (Watched.invariant EffectMachine.tagged) task
    (show Drives (System.driven? _ task) _ by rw [hdriven]; rfl)
  obtain ⟨lower, hlive⟩ := List.head?_eq_some_iff.1 hhead
  have hpos : 0 < number := by
    have hbelow := List.length_pos_iff.2 habove
    have htop := watched.tracks.sound.top_pos (by rw [watched.tracks.length]; exact Nat.succ_lt_succ hbelow)
    simpa [hlive] using htop
  have hkept := watched.kept
  rw [hlive] at hkept
  cases hkept with
  | cons hfirst _ =>
      obtain ⟨computation, hmem⟩ := hfirst hpos
      refine ⟨habove, hpos, computation, ?_⟩
      rw [deeds_append]
      exact mem_life_append _ hmem

end HandlesAt
/-! ## Going up -/

/-- One frame delegates an operation of a kind, and a handler services it in the other frame. -/
inductive Delegates (machine : Machine) (first : Host) (trace : Trace) (task : TaskId) (kind : String)
    (parent child : Nat) : Prop
  | intro {before : List Act} {inner : Effect} {inPlace : Bool} {run : Run} {position index : Nat} {handler : Handler}
      {handled : Handled} (hhandles : HandlesAt machine first trace task before (.next inner inPlace) run)
      (hkind : inner.kind = kind) (hparent : (Roll.after before).live.head? = some parent)
      (hservices : machine.Services run (.next inner inPlace) inner position (some (index, handler)) handled)
      (hchild : (Roll.after before).next = child)

/-- A frame runs the handler of a kind at a position. -/
abbrev RunsHandler (trace : Trace) (task : TaskId) (kind : String) (number index : Nat) : Prop :=
  Tagged (deeds trace task) number (some ⟨kind, index⟩)

/-- The frame that a handler services an effect in is tagged with its position. -/
theorem HandlesAt.tagged_child {before : List Act} {effect serviced : Effect} {run : Run} {position index : Nat}
    {handler : Handler} {handled : Handled} (hnext : machine.registry.hasHandlers Kind.next = false)
    (handlesAt : HandlesAt machine first trace task before effect run)
    (services : machine.Services run effect serviced position (some (index, handler)) handled) :
    Act.pushed (handler.handle serviced.operation run.stack.context) (some ⟨serviced.kind, index⟩) ∈
      life (deeds trace task) (Roll.after before).next := by
  obtain ⟨after, hdeeds⟩ := handlesAt.deeds_eq
  rw [(services.attempt_eq hnext).2 index handler rfl] at hdeeds
  have hroll : (Roll.after (before ++ .performed effect :: effect.discards)).next = (Roll.after before).next := by
    rw [List.append_cons, Roll.after, List.foldl_append, List.foldl_append]
    cases effect with
    | next inner inPlace => cases inPlace <;> rfl
    | _ => rfl
  have hsplit : deeds trace task = (before ++ .performed effect :: effect.discards) ++
      .pushed (handler.handle serviced.operation run.stack.context) (some ⟨serviced.kind, index⟩) :: after := by
    simp [hdeeds]
  obtain ⟨later, hlife⟩ := exists_life_of_split hsplit (show Roll.actor _ _ = (Roll.after before).next from hroll)
  simp [hlife]

/-- A delegation goes up by position. -/
theorem Runs.ascends (hnext : machine.registry.hasHandlers Kind.next = false) {kind : String} {parent child : Nat}
    (delegates : Delegates machine first trace task kind parent child) :
    ∃ lower upper, RunsHandler trace task kind parent lower ∧ RunsHandler trace task kind child upper ∧ lower < upper := by
  obtain ⟨hhandles, rfl, hparent, hservices, rfl⟩ := delegates
  have hchild := hhandles.tagged_child hnext hservices
  obtain ⟨-, -, htagged⟩ := hhandles.tagged hparent
  cases hservices with
  | @delegated _ tag _ _ _ _ htag hkind hselects | @inPlace _ tag _ _ _ _ _ htag hkind _ hselects =>
      rw [htag] at htagged
      refine ⟨tag.index, _, hkind ▸ htagged, ⟨_, hchild⟩, ?_⟩
      cases hselects with
      | handler hfirst => exact hfirst

/-- Along a chain of delegations the positions go up, so that there are no more frames than handlers of the kind. -/
theorem Runs.ascends_chain (runs : Runs machine first trace system)
    (hnext : machine.registry.hasHandlers Kind.next = false) {kind : String} {parent lowest : Nat} {frames : List Nat}
    (hparent : RunsHandler trace task kind parent lowest)
    (hchain : (parent :: frames).IsChain (Delegates machine first trace task kind)) :
    ∃ positions, List.Forall₂ (RunsHandler trace task kind) frames positions ∧
      (lowest :: positions).Pairwise (· < ·) ∧
      ∀ position ∈ lowest :: positions, position < (machine.registry.handlersOf kind).length := by
  have hlowest := runs.index_lt hparent
  induction frames generalizing parent lowest with
  | nil => exact ⟨[], .nil, List.pairwise_singleton _ _, List.forall_mem_singleton.2 hlowest⟩
  | cons child frames ih =>
      obtain ⟨hdelegates, hrest⟩ := List.isChain_cons_cons.1 hchain
      obtain ⟨lower, upper, hlower, hupper, hless⟩ := Runs.ascends hnext hdelegates
      obtain ⟨positions, hpositions, hascending, hbound⟩ := ih hupper hrest (runs.index_lt hupper)
      have hsame : lower = lowest := by
        have htags := runs.tag_unique hlower hparent
        simpa using htags
      refine ⟨upper :: positions, .cons hupper hpositions, List.pairwise_cons.2 ⟨?_, hascending⟩,
        List.forall_mem_cons.2 ⟨hlowest, hbound⟩⟩
      refine List.forall_mem_cons.2 ⟨hsame ▸ hless, fun position hmem => ?_⟩
      exact Nat.lt_trans (hsame ▸ hless) ((List.pairwise_cons.1 hascending).1 position hmem)

/-- Positions that go up leave room below a bound for no more than there are numbers in between. -/
theorem add_length_lt_of_ascending {lowest bound : Nat} {positions : List Nat}
    (hascending : (lowest :: positions).Pairwise (· < ·)) (hbound : ∀ position ∈ lowest :: positions, position < bound) :
    lowest + positions.length < bound := by
  induction positions generalizing lowest with
  | nil => exact hbound lowest List.mem_cons_self
  | cons next rest ih =>
      obtain ⟨hlowest, hrest⟩ := List.pairwise_cons.1 hascending
      have hless := hlowest next List.mem_cons_self
      have hroom := ih hrest fun position hmem => hbound position (List.mem_cons_of_mem _ hmem)
      rw [List.length_cons]
      omega

/-! ## Layers -/

/-- A handler does nothing with an operation but to delegate it and to change the outcome. -/
def Handler.PostProcesses (handler : Handler) (operation : Effect) (context : Context) (post : Outcome → Outcome) : Prop :=
  (handler.handle operation context).body = .perform (.next operation false) fun outcome => .done (post outcome)

/-- After some acts the top frame performs an effect, and what it does next of its own is to go on with an outcome. -/
def ResumedWith (acts before : List Act) (effect : Effect) (outcome : Outcome) : Prop :=
  ∃ number rest, (Roll.after before).live.head? = some number ∧
    strides (life acts number) = strides (life before number) ++ .performed effect :: .resumed outcome :: rest

/-- How an effect that a frame hands on is serviced from a position on: by handlers that delegate it one to the next, each in
a frame of its own, and finally by the core rule, which the innermost frame is told the outcome of.  The layers are the
positions of the handlers, from the outside in, with what each of them does to the outcome. -/
inductive Layered (machine : Machine) (first : Host) (trace : Trace) (task : TaskId) :
    List Act → Effect → Effect → Nat → List (Nat × (Outcome → Outcome)) → Outcome → Prop
  | core {before : List Act} {effect serviced : Effect} {position : Nat} {run : Run} {handled : Handled} {outcome : Outcome}
      (hhandles : HandlesAt machine first trace task before effect run)
      (hservices : machine.Services run effect serviced position none handled)
      (hresumed : ResumedWith (deeds trace task) before effect outcome) :
      Layered machine first trace task before effect serviced position [] outcome
  | handler {before within : List Act} {effect serviced : Effect} {position index : Nat} {run : Run} {handler : Handler}
      {handled : Handled} {post : Outcome → Outcome} {layers : List (Nat × (Outcome → Outcome))} {outcome : Outcome}
      (hhandles : HandlesAt machine first trace task before effect run)
      (hservices : machine.Services run effect serviced position (some (index, handler)) handled)
      (hpost : handler.PostProcesses serviced.operation run.stack.context post)
      (hwithin : (Roll.after within).live.head? = some (Roll.after before).next)
      (hrest : Layered machine first trace task within (.next serviced.operation false) serviced.operation (index + 1) layers
        outcome) :
      Layered machine first trace task before effect serviced position ((index, post) :: layers) outcome

/-- What the layers make of the outcome of the core rule. -/
def composed (layers : List (Nat × (Outcome → Outcome))) (outcome : Outcome) : Outcome :=
  layers.foldr (fun layer => layer.2) outcome

/-- No frame of a handler of a kind is discarded, or has deferred effects to start. -/
def Undiscarded (trace : Trace) (task : TaskId) (kind : String) : Prop :=
  ∀ number index, RunsHandler trace task kind number index →
    .dropped ∉ life (deeds trace task) number ∧ ∀ effect, .started effect ∉ life (deeds trace task) number

/-- Handlers of one kind post-process an operation. -/
def Machine.PostProcesses (machine : Machine) (operation : Effect) : Prop :=
  ∀ handler ∈ machine.registry.handlersOf operation.kind, ∀ context, ∃ post, handler.PostProcesses operation context post

theorem Effect.operation_operation (effect : Effect) : effect.operation.operation = effect.operation := by
  cases effect <;> rfl

/-- The frame of a handler that post-processes an operation, and ends, has delegated the operation and was told what it made
its outcome of. -/
theorem Runs.delegated_of_completed (runs : Runs machine first trace system) {number : Nat} {computation : Computation}
    {tag : Option HandlerTag} {operation : Effect} {post : Outcome → Outcome} {outcome : Outcome}
    (hpushed : .pushed computation tag ∈ life (deeds trace task) number)
    (hbody : computation.body = .perform (.next operation false) fun outcome => .done (post outcome))
    (hcompleted : .completed outcome ∈ life (deeds trace task) number) :
    ∃ within after answer, deeds trace task = within ++ .performed (.next operation false) :: after ∧
      (Roll.after within).live.head? = some number ∧
      ResumedWith (deeds trace task) within (.next operation false) answer ∧ outcome = post answer := by
  obtain ⟨begun, rest, hstrides, hcompletes⟩ := runs.completes hpushed hcompleted
  rw [hbody] at hcompletes
  cases hcompletes with
  | @perform _ _ answer acts _ hends =>
      cases hends
      have hdelegated : strides (life (deeds trace task) number) =
          [.resumed begun] ++ .performed (.next operation false) :: [.resumed answer, .completed (post answer)] := hstrides
      obtain ⟨within, after, hdeeds, hactor, hbefore⟩ := exists_of_strides hdelegated
      have hhead : (Roll.after within).live.head? = some number := Roll.head?_eq (pos_of_pushed hpushed) hactor
      refine ⟨within, after, answer, hdeeds, hhead, ⟨number, [.completed (post answer)], hhead, ?_⟩, rfl⟩
      rw [hbefore]
      exact hdelegated

/-- A frame that is resumed after an effect which a handler services is told what the frame of the handler has ended with. -/
theorem Runs.completed_of_resumed (runs : Runs machine first trace system) (hcalm : .noticed ∉ deeds trace task)
    {before after : List Act} {effect : Effect} {computation : Computation} {tag : Option HandlerTag} {outcome : Outcome}
    (hdeeds : deeds trace task = before ++ .performed effect :: .pushed computation tag :: after)
    (hkept : .dropped ∉ life (deeds trace task) (Roll.after before).next ∧
      ∀ effect, .started effect ∉ life (deeds trace task) (Roll.after before).next)
    (hresumed : ResumedWith (deeds trace task) before effect outcome) :
    .completed outcome ∈ life (deeds trace task) (Roll.after before).next := by
  obtain ⟨parent, rest, hhead, hstrides⟩ := hresumed
  obtain ⟨later, hlife, hlater⟩ := runs.answered hcalm hdeeds hhead hkept.2 hkept.1
  have hstride : strides (.performed effect :: later) = .performed effect :: strides later := rfl
  rw [hlife, strides_append, hstride] at hstrides
  have hnext := (List.cons.inj (List.append_cancel_left hstrides)).2
  rcases hlater with rfl | ⟨own, more, hcompleted, rfl⟩
  · cases hnext
  · obtain rfl : own = outcome := Act.resumed.inj (List.cons.inj hnext).1
    exact hcompleted

/-- An operation comes to what the handlers that take it make of what the core rule comes to, in order of their positions. -/
theorem Runs.layered (runs : Runs machine first trace system) (hcalm : .noticed ∉ deeds trace task)
    (hnext : machine.registry.hasHandlers Kind.next = false) {operation : Effect} (hpost : machine.PostProcesses operation)
    (hvalid : ∀ host, ∃ later, machine.registry.Admits host (Effect.next operation false).chain later)
    (hkept : Undiscarded trace task operation.kind) {before after : List Act} {effect serviced : Effect} {position : Nat}
    {outcome : Outcome} (hserviced : serviced.operation = operation)
    (heffect : effect = serviced ∨ effect = .next serviced false)
    (hdeeds : deeds trace task = before ++ .performed effect :: after)
    (hservices : ∀ run, HandlesAt machine first trace task before effect run →
      ∃ choice handled, machine.Services run effect serviced position choice handled)
    (hresumed : ResumedWith (deeds trace task) before effect outcome) :
    ∃ layers answer, Layered machine first trace task before effect serviced position layers answer ∧
      outcome = composed layers answer ∧ (layers.map Prod.fst).Pairwise (· < ·) ∧
      ∀ layer ∈ layers, position ≤ layer.1 := by
  induction hrest : (machine.registry.handlersOf operation.kind).length - position using Nat.strongRecOn
    generalizing before after effect serviced position outcome with
  | ind left ih =>
      obtain ⟨run, rest, hhandles, rfl⟩ : ∃ run rest, HandlesAt machine first trace task before effect run ∧
          after = machine.handleActs effect run ++ rest := by
        refine (runs.handlesAt hdeeds).resolve_left ?_
        rintro ⟨rest, rfl⟩
        exact hcalm (by simp [hdeeds])
      obtain ⟨choice, handled, services⟩ := hservices run hhandles
      rcases choice with _ | ⟨index, handler⟩
      · exact ⟨[], outcome, .core hhandles services hresumed, rfl, .nil, List.forall_mem_nil _⟩
      have hkind : serviced.kind = operation.kind := by rw [← hserviced, Effect.kind_operation]
      obtain ⟨hfirst, hhandler⟩ := services.index_bounds
      -- the handler services the operation in a frame of its own, which ends with the outcome
      have hpushed := hhandles.tagged_child hnext services
      rw [(services.attempt_eq hnext).2 index handler rfl, services.discards_eq hnext heffect] at hdeeds
      have hchild := hkept _ index ⟨_, hkind ▸ hpushed⟩
      have hcompleted := runs.completed_of_resumed hcalm hdeeds hchild hresumed
      -- it has delegated the operation before, to the handlers behind it
      have hhandler' := hkind ▸ hhandler
      obtain ⟨post, hbody⟩ := hpost handler (List.mem_of_getElem? hhandler') run.stack.context
      have hruns : (handler.handle serviced.operation run.stack.context).body =
          .perform (.next operation false) fun outcome => .done (post outcome) := by
        rw [hserviced]
        exact hbody
      obtain ⟨within, more, answer, hwithin, hhead, hanswer, rfl⟩ :=
        runs.delegated_of_completed hpushed hruns hcompleted
      have hdelegated (later : Run) (hlater : HandlesAt machine first trace task within (.next operation false) later) :
          ∃ choice handled, machine.Services later (.next operation false) operation (index + 1) choice handled := by
        obtain ⟨hbelow, -, htagged⟩ := hlater.tagged hhead
        obtain ⟨host, hadmits⟩ := hvalid later.host
        have htag := runs.tag_unique htagged ⟨_, hpushed⟩
        exact Machine.Services.exists_delegated hadmits htag hkind hbelow
      have hsmaller : (machine.registry.handlersOf operation.kind).length - (index + 1) < left := by
        have hlong := (List.getElem?_eq_some_iff.1 hhandler').1
        omega
      have hsame : operation.operation = operation := by rw [← hserviced, Effect.operation_operation]
      obtain ⟨layers, core, hlayered, rfl, hascending, hbound⟩ :=
        ih _ hsmaller hsame (.inr rfl) hwithin hdelegated hanswer rfl
      refine ⟨(index, post) :: layers, core, ?_, rfl, List.pairwise_cons.2 ⟨?_, hascending⟩, ?_⟩
      · subst hserviced
        exact .handler hhandles services hbody hhead hlayered
      · exact List.forall_mem_map.2 hbound
      · refine List.forall_mem_cons.2 ⟨hfirst, fun layer hmem => ?_⟩
        exact Nat.le_trans hfirst (Nat.le_of_succ_le (hbound layer hmem))

/-- Whenever a computation performs an effect and goes on with an outcome, this is what the handlers that service the effect,
in order of their positions, make of what the core rule comes to. -/
def Composes (machine : Machine) (first : Host) (trace : Trace) (task : TaskId) (effect : Effect) : Prop :=
  ∀ before after outcome, deeds trace task = before ++ .performed effect :: after →
    ResumedWith (deeds trace task) before effect outcome →
    ∃ layers answer, Layered machine first trace task before effect effect 0 layers answer ∧
      outcome = composed layers answer ∧ (layers.map Prod.fst).Pairwise (· < ·)

/-- What may be delegated may be performed. -/
theorem Registry.Admits.of_delegation {registry : Registry} {host later : Host} {effect : Effect}
    (hadmits : registry.Admits host (Effect.next effect.operation false).chain later) :
    ∃ middle, registry.Admits host effect.chain middle := by
  have hfirst {host later : Host} {operations more : List Effect} (hall : registry.Admits host (operations ++ more) later) :
      ∃ middle, registry.Admits host operations middle := by
    induction operations generalizing host with
    | nil => exact ⟨host, .nil host⟩
    | cons operation rest ih =>
        cases hall with
        | cons hjudged hrest =>
            obtain ⟨middle, hmiddle⟩ := ih hrest
            exact ⟨middle, .cons hjudged hmiddle⟩
  cases effect with
  | bare computation => exact ⟨host, .nil host⟩
  | _ => exact hfirst hadmits

/-- Handlers that post-process an operation, and whose frames are neither discarded nor have anything deferred on them,
compose around the core rule. -/
theorem Runs.composes (runs : Runs machine first trace system) (hcalm : .noticed ∉ deeds trace task)
    (hnext : machine.registry.hasHandlers Kind.next = false) {effect : Effect}
    (hpost : machine.PostProcesses effect.operation)
    (hvalid : ∀ host, ∃ later, machine.registry.Admits host (Effect.next effect.operation false).chain later)
    (hkept : Undiscarded trace task effect.kind) : Composes machine first trace task effect := by
  intro before after outcome hdeeds hresumed
  have hservices (run : Run) (_ : HandlesAt machine first trace task before effect run) :
      ∃ choice handled, machine.Services run effect effect 0 choice handled := by
    obtain ⟨later, hadmits⟩ := hvalid run.host
    obtain ⟨middle, hadmits⟩ := hadmits.of_delegation
    exact Machine.Services.exists_direct hadmits
  rw [← Effect.kind_operation] at hkept
  obtain ⟨layers, answer, hlayered, houtcome, hascending, -⟩ :=
    runs.layered hcalm hnext hpost hvalid hkept rfl (.inl rfl) hdeeds hservices hresumed
  exact ⟨layers, answer, hlayered, houtcome, hascending⟩

end Processes

/-! ## The main statement -/

/-- Delegation only moves forward.  On a machine without handlers of delegations, an effect that is performed is serviced by
the first handler of its kind that takes it, and one that is delegated by the first one behind the delegating handler; and if
there is none, by the core rule.  So in every run frames are tagged with the positions of their handlers, and positions go up
along every chain of delegations, which has no more frames than there are handlers; and handlers that post-process an operation
compose, as long as their frames are not discarded and nothing is deferred on them. -/
theorem delegation_moves_forward (machine : Machine) (hnext : machine.registry.hasHandlers Kind.next = false) :
    (∀ effect run later, machine.registry.Admits run.host effect.chain later →
      ∃ choice handled, machine.Services run effect effect 0 choice handled) ∧
    (∀ effect inPlace run later tag, machine.registry.Admits run.host (Effect.next effect inPlace).chain later →
      run.stack.top.tag = some tag → tag.kind = effect.kind → run.stack.below ≠ [] →
      ∃ choice handled, machine.Services run (.next effect inPlace) effect (tag.index + 1) choice handled) ∧
    (∀ run effect serviced position choice handled, machine.Services run effect serviced position choice handled →
      machine.attempt effect run = handled) ∧
    (∀ kind payload run,
      machine.serve (.custom kind payload) none run = { run, failure := some (.unrecognized kind) }) ∧
    ∀ first trace system task, Runs machine first trace system →
      (∀ act ∈ deeds trace task, act.Positioned machine) ∧
      (∀ kind parent lowest frames, RunsHandler trace task kind parent lowest →
        (parent :: frames).IsChain (Delegates machine first trace task kind) →
        (∃ positions, List.Forall₂ (RunsHandler trace task kind) frames positions ∧
          (lowest :: positions).Pairwise (· < ·)) ∧
        frames.length < (machine.registry.handlersOf kind).length) ∧
      ∀ effect, .noticed ∉ deeds trace task → machine.PostProcesses effect.operation →
        (∀ host, ∃ later, machine.registry.Admits host (Effect.next effect.operation false).chain later) →
        Undiscarded trace task effect.kind → Composes machine first trace task effect := by
  refine ⟨fun effect run later => Machine.Services.exists_direct,
    fun effect inPlace run later tag => Machine.Services.exists_delegated,
    fun run effect serviced position choice handled services => (services.attempt_eq hnext).1, fun _ _ _ => rfl,
    fun first trace system task runs => ⟨runs.positioned task, fun kind parent lowest frames hparent hchain => ?_,
      fun effect hcalm hpost hvalid hkept => runs.composes hcalm hnext hpost hvalid hkept⟩⟩
  obtain ⟨positions, hpositions, hascending, hbound⟩ := runs.ascends_chain hnext hparent hchain
  have hroom := add_length_lt_of_ascending hascending hbound
  have hlength := hpositions.length_eq
  exact ⟨⟨positions, hpositions, hascending⟩, by omega⟩

/-! ## A machine whose handlers leave marks -/

/-- A value with a mark. -/
def marked (mark : Bool) (outcome : Outcome) : Outcome :=
  outcome.map fun value => .list [.bool mark, value]

/-- A handler that delegates what it services and marks the value. -/
def marking (mark : Bool) : Handler :=
  .ofHandle fun operation _ => ⟨none, .perform (.next operation false) fun outcome => .done (marked mark outcome)⟩

/-- A machine with such handlers of a kind. -/
def stamping (kind : String) (marks : List Bool) : Machine :=
  { Machine.bare with registry := { handlers := marks.map fun mark => (kind, marking mark) } }

/-- What a client does that runs a computation which performs an effect. -/
def stamped (effect : Effect) (marks : List Bool) : Trace × System :=
  (System.submitting (.blank 0) (.bare ⟨none, .perform effect .done⟩)).execute (stamping effect.kind marks) 40

/-- A computation that replaces itself by one that ends at once. -/
def replacing : Effect :=
  .terminal (.bare ⟨none, .done (.ok .null)⟩)

def isReplacing : Effect → Bool
  | .terminal (.bare ⟨none, .done (.ok .null)⟩) => true
  | _ => false

def isDescription : Effect → Bool
  | .generator => true
  | _ => false

/-- Whether a value has two marks. -/
def isMarkedTwice : Value → Bool
  | .list [.bool true, .list [.bool false, _]] => true
  | _ => false

/-- Whether a computation performs an effect and goes on with a value. -/
def goesOn (isEffect : Effect → Bool) (isValue : Value → Bool) : List Act → Bool
  | [.resumed _, .performed effect, .resumed (.ok value), .completed _] => isEffect effect && isValue value
  | _ => false

theorem exists_of_goesOn {isEffect : Effect → Bool} {isValue : Value → Bool} {acts : List Act} {number : Nat}
    (hpos : 0 < number) (hgoes : goesOn isEffect isValue (strides (life acts number)) = true) :
    ∃ before after effect value, acts = before ++ .performed effect :: after ∧ isEffect effect = true ∧
      ResumedWith acts before effect (.ok value) ∧ isValue value = true := by
  unfold goesOn at hgoes
  split at hgoes
  · rename_i begun effect value own hstrides
    obtain ⟨heffect, hvalue⟩ := Bool.and_eq_true_iff.1 hgoes
    have hperformed : strides (life acts number) =
        [.resumed begun] ++ .performed effect :: [.resumed (.ok value), .completed own] := hstrides
    obtain ⟨before, after, hacts, hactor, hbefore⟩ := exists_of_strides hperformed
    refine ⟨before, after, effect, value, hacts, heffect, ⟨number, [.completed own], Roll.head?_eq hpos hactor, ?_⟩, hvalue⟩
    rw [hbefore]
    exact hperformed
  · cases hgoes

theorem eq_of_isReplacing {effect : Effect} (hreplacing : isReplacing effect = true) : effect = replacing := by
  unfold isReplacing at hreplacing
  split at hreplacing
  · rfl
  · cases hreplacing

theorem hasHandlers_stamping {kind : String} (marks : List Bool) (hkind : kind ≠ Kind.next) :
    (stamping kind marks).registry.hasHandlers Kind.next = false := by
  have hnone : (stamping kind marks).registry.handlersOf Kind.next = [] := by
    refine List.map_eq_nil_iff.2 (List.filter_eq_nil_iff.2 fun entry hmem => ?_)
    obtain ⟨mark, -, rfl⟩ := List.mem_map.1 hmem
    simpa using hkind
  rw [Registry.hasHandlers, hnone]
  rfl

theorem postProcesses_stamping (kind : String) (marks : List Bool) (operation : Effect) :
    (stamping kind marks).PostProcesses operation := by
  intro handler hmem context
  obtain ⟨mark, -, rfl⟩ : ∃ mark, mark ∈ marks ∧ marking mark = handler := by
    obtain ⟨entry, hentry, rfl⟩ := List.mem_map.1 hmem
    obtain ⟨mark, hmark, rfl⟩ := List.mem_map.1 (List.mem_filter.1 hentry).1
    exact ⟨mark, hmark, rfl⟩
  exact ⟨marked mark, rfl⟩

theorem undiscarded_of_any {trace : Trace} {task : TaskId}
    (hkept : (deeds trace task).any (fun act => act.drops || act.started?.isSome) = false) (kind : String) :
    Undiscarded trace task kind :=
  fun _ _ _ => ⟨fun hmem => Act.not_mem_of_any hkept rfl (mem_of_mem_life hmem),
    fun _ hmem => Act.not_mem_of_any hkept rfl (mem_of_mem_life hmem)⟩

/-- Two handlers mark what the core rule says of a computation, the first one last. -/
theorem delegation_moves_forward_marks :
    (stamping Kind.generator [true, false]).registry.hasHandlers Kind.next = false ∧
    ∃ before after shown, deeds (stamped .generator [true, false]).1 ⟨0⟩ = before ++ .performed .generator :: after ∧
      ∃ layers answer,
        Layered (stamping Kind.generator [true, false])
          (System.clients (.blank 0) [.perform (.bare ⟨none, .perform .generator .done⟩) .done])
          (stamped .generator [true, false]).1 ⟨0⟩ before .generator .generator 0 layers answer ∧
        .ok (.list [.bool true, .list [.bool false, shown]]) = composed layers answer ∧
        (layers.map Prod.fst).Pairwise (· < ·) := by
  have hnext := @hasHandlers_stamping Kind.generator [true, false] (by decide)
  have hgoes : goesOn isDescription isMarkedTwice
      (strides (life (deeds (stamped .generator [true, false]).1 ⟨0⟩) 1)) = true := by decide +kernel
  have hcalm : (deeds (stamped .generator [true, false]).1 ⟨0⟩).any Act.notices = false := by decide +kernel
  have hkept : (deeds (stamped .generator [true, false]).1 ⟨0⟩).any (fun act => act.drops || act.started?.isSome) = false := by
    decide +kernel
  obtain ⟨before, after, effect, value, hdeeds, heffect, hresumed, hvalue⟩ := exists_of_goesOn Nat.one_pos hgoes
  obtain rfl : effect = .generator := by
    cases effect <;> first | rfl | cases heffect
  obtain ⟨shown, rfl⟩ : ∃ shown, value = .list [.bool true, .list [.bool false, shown]] := by
    unfold isMarkedTwice at hvalue
    split at hvalue
    · exact ⟨_, rfl⟩
    · cases hvalue
  obtain ⟨-, -, -, -, hruns⟩ := delegation_moves_forward (stamping Kind.generator [true, false]) hnext
  obtain ⟨-, -, hcomposes⟩ := hruns _ _ _ ⟨0⟩ (Runs.submitted _ _ _ _)
  have hvalid (host : Host) : ∃ later, (stamping Kind.generator [true, false]).registry.Admits host
      (Effect.next Effect.generator.operation false).chain later :=
    ⟨host, Registry.admits_of_validators rfl (List.forall_mem_cons.2 ⟨rfl, List.forall_mem_singleton.2 rfl⟩) host⟩
  obtain ⟨layers, answer, hlayered, houtcome, hascending⟩ :=
    hcomposes .generator (Act.not_mem_of_any hcalm rfl) (postProcesses_stamping _ _ _) hvalid
      (undiscarded_of_any hkept Kind.generator) before after _ hdeeds hresumed
  exact ⟨hnext, before, after, shown, hdeeds, layers, answer, hlayered, houtcome, hascending⟩

/-- A handler that marks what comes of a computation replacing itself is discarded with its mark: the core rule for terminal
operations discards the frame that delegates to it. -/
theorem replacing_not_composes :
    (stamping Kind.terminal [true]).registry.hasHandlers Kind.next = false ∧
    .noticed ∉ deeds (stamped replacing [true]).1 ⟨0⟩ ∧
    (stamping Kind.terminal [true]).PostProcesses replacing ∧
    (∀ host, ∃ later, (stamping Kind.terminal [true]).registry.Admits host (Effect.next replacing false).chain later) ∧
    ¬ Composes (stamping Kind.terminal [true])
      (System.clients (.blank 0) [.perform (.bare ⟨none, .perform replacing .done⟩) .done])
      (stamped replacing [true]).1 ⟨0⟩ replacing := by
  have hcalm : (deeds (stamped replacing [true]).1 ⟨0⟩).any Act.notices = false := by decide +kernel
  refine ⟨hasHandlers_stamping _ (by decide), Act.not_mem_of_any hcalm rfl, postProcesses_stamping _ _ _, fun host => ⟨host, ?_⟩,
    fun hcomposes => ?_⟩
  · exact Registry.admits_of_validators rfl (List.forall_mem_cons.2 ⟨rfl, List.forall_mem_singleton.2 rfl⟩) host
  have hgoes : goesOn isReplacing Value.isNull (strides (life (deeds (stamped replacing [true]).1 ⟨0⟩) 1)) = true := by
    decide +kernel
  obtain ⟨before, after, effect, value, hdeeds, heffect, hresumed, hvalue⟩ := exists_of_goesOn Nat.one_pos hgoes
  obtain rfl := eq_of_isReplacing heffect
  obtain rfl : value = .null := by
    cases value <;> first | rfl | cases hvalue
  obtain ⟨layers, answer, hlayered, houtcome, -⟩ := hcomposes before after _ hdeeds hresumed
  have htake {index : Nat} {handler : Handler}
      (hhandler : ((stamping Kind.terminal [true]).registry.handlersOf Kind.terminal)[index]? = some handler) :
      handler = marking true := by
    have hmem := List.mem_of_getElem? hhandler
    exact List.mem_singleton.1 hmem
  cases hlayered with
  | core _ services _ =>
      cases services with
      | direct _ hselects =>
          cases hselects with
          | nobody hdeclined =>
              cases hdeclined with
              | cons hfirst _ => cases hfirst
  | @handler _ _ _ _ _ _ _ _ _ post layers _ _ services hpost =>
      obtain rfl := htake services.index_bounds.2
      have hmark : post (composed layers answer) = marked true (composed layers answer) :=
        (Body.done.inj (congrFun (Body.perform.inj hpost).2 (composed layers answer))).symm
      have hmarked : .ok .null = marked true (composed layers answer) := houtcome.trans hmark
      cases hanswer : composed layers answer <;> (rw [hanswer] at hmarked; cases hmarked)

end EffectMachine
