import EffectMachine.Proofs.Batch.Delivery
import EffectMachine.Proofs.Batch.Openers
import EffectMachine.Proofs.Interleaving.Contexts
import EffectMachine.Proofs.Interleaving.Execution

/-!
# The contexts of batches

A batch is computed by one process, its flusher, under the context of that process, whatever the contexts of the
callers are.

* `Descends` are the processes that descend from one, and `Origins.context_of_descends` says that they all have its
  context.
* `Batch.Setting.opening_of_collect` finds the call that opened a batch, which is the first one of it, and
  `Batch.Setting.flush_of_receive` the flush that a caller gets its answer from.
* `Batch.computed_under_opener` says that the flusher of a batch has the context of the caller that opened it.
-/

namespace EffectMachine

/-- The processes that descend from one: itself, and those that are forked by one of them. -/
inductive Descends (descent : Descent) (trace : Trace) (ancestor : TaskId) : TaskId → Prop
  | self : Descends descent trace ancestor ancestor
  | forked {before after : Trace} {forker task : TaskId} {effect : Effect}
      (hforker : Descends descent trace ancestor forker) (htrace : trace = before ++ (forker, .forked effect) :: after)
      (hbirth : descent.birth task = some before.length) : Descends descent trace ancestor task

/-- A task has the context of the process that forked it. -/
theorem Origins.context_of_birth {machine : Machine} {first : Host} {descent : Descent} {trace : Trace} {host : Host}
    (origins : Origins machine first descent trace host) {before after : Trace} {forker task : TaskId} {effect : Effect}
    (htrace : trace = before ++ (forker, .forked effect) :: after) (hbirth : descent.birth task = some before.length) :
    descent.context task = descent.context forker := by
  obtain ⟨forked, activity, hforked, -, hcontext, -⟩ := origins.careers before forker effect after htrace
  rw [origins.only task forked before.length hbirth hforked, hcontext]

/-- The processes that descend from one have its context. -/
theorem Origins.context_of_descends {machine : Machine} {first : Host} {descent : Descent} {trace : Trace} {host : Host}
    (origins : Origins machine first descent trace host) {ancestor task : TaskId}
    (hdescends : Descends descent trace ancestor task) : descent.context task = descent.context ancestor := by
  induction hdescends with
  | self => rfl
  | forked _ htrace hbirth ih => rw [origins.context_of_birth htrace hbirth, ih]

namespace Batch

variable {machine : Machine} {underlying : Nat → Function} {first : Host} {trace : Trace} {system : System}
variable {descent : Descent} {task opener flusher : TaskId} {number place : Nat} {group : BatchGroup}

/-- A flush runs under the context of the process that launched it. -/
theorem context_of_launchedBy {host : Host} (origins : Origins machine first descent trace host) {computation : Computation}
    (hlaunched : LaunchedBy descent trace opener number computation flusher place) :
    descent.context flusher = descent.context opener := by
  cases hlaunched with
  | here => rfl
  | apart htrace _ _ hbirth => exact origins.context_of_birth htrace hbirth

namespace Setting

variable (setting : Setting machine underlying) (fresh : Fresh underlying first)
  (runs : Runs machine first trace system)
include setting fresh runs

/-- Only the service of a call waits for its answer. -/
theorem enrolled_of_receive {slot : Slot} {reply : Option Outcome}
    (hreceived : .acted (.receive slot) reply ∈ life (deeds trace task) number) :
    ∃ group args enrolment, .acted (.enroll group args) enrolment ∈ life (deeds trace task) number ∧
      (enrolment : Enrolment).slot = slot ∧ Receives trace slot reply := by
  have hmem : .acted (.receive slot) reply ∈ strides (life (deeds trace task) number) := mem_strides.2 ⟨hreceived, rfl⟩
  rcases setting.takes_part fresh runs rfl hreceived with ⟨group, window, tag, hpushed⟩ |
    ⟨batcher, window, operation, tag, -, hpushed⟩
  · rcases (flushing_of_pushed runs hpushed).collects_or_answers hmem rfl with hact | ⟨other, outcome, hact⟩ <;> cases hact
  · rcases joining_of_pushed runs hpushed with hquiet |
      ⟨kind, definition, function, key, args, begun, enrolment, rest, -, -, hstrides, joining⟩
    · cases hquiet underlying withheld _ hmem
    · have hrest : .acted (.receive slot) reply ∈ rest := by
        rw [hstrides] at hmem
        simp only [List.mem_cons, reduceCtorEq, false_or] at hmem
        rcases hmem with henrolled | hmem
        · cases henrolled
        · exact hmem
      rcases joining.abandons_or_receives hrest rfl with hact | hact
      · cases hact
      · obtain rfl := Action.receive.inj hact
        obtain ⟨earlier, later, rfl⟩ := List.append_of_mem hrest
        have henrolled : .acted (.enroll { batcher, definition, key } args) enrolment ∈ life (deeds trace task) number :=
          (mem_strides.1 (by rw [hstrides]; simp)).1
        refine ⟨_, args, enrolment, henrolled, rfl, ?_⟩
        rw [← List.cons_append, ← List.cons_append] at hstrides
        exact setting.receives_of_strides fresh runs hstrides (List.mem_cons_of_mem _ List.mem_cons_self)

/-- A batch that is collected was opened by its first call, and launched by the service of that call. -/
theorem opening_of_collect (unintercepted : Unintercepted machine)
    (lineage : Lineage machine underlying first descent trace system.parked) {calls : List Enrolled}
    (hcollected : .acted (.collect group) calls ∈ life (deeds trace flusher) place) :
    ∃ opener number args enrolment rest window,
      .acted (.enroll group args) enrolment ∈ life (deeds trace opener) number ∧ (enrolment : Enrolment).opened = true ∧
        calls = ⟨args, enrolment.slot⟩ :: rest ∧
          LaunchedBy descent trace opener number (flush group (underlying group.definition) window) flusher place := by
  have recorded := (setting.books fresh runs).recorded
  obtain ⟨before, after, htrace, hactor⟩ := exists_of_life hcollected
  have hremoves : (Act.acted (.collect group) calls).removes group = true := by simp [Act.removes]
  obtain ⟨opener, number, args, enrolment, earlier, mid, hcloses, hbefore, hopens⟩ :=
    setting.exists_opener unintercepted fresh runs lineage htrace hremoves
  have hkept := setting.open_until_closed unintercepted fresh runs lineage htrace hcloses hbefore hopens
  have hopening : trace = earlier ++ (opener, .acted (.enroll group args) enrolment) ::
      (mid ++ (flusher, .acted (.collect group) calls) :: after) := by
    rw [htrace, hbefore]
    simp
  have hempty : booked group earlier = [] := (recorded earlier opener _ _ hopening).2.1 hopens.opened
  have hcalls : calls = ⟨args, enrolment.slot⟩ :: mid.flatMap fun entry => entry.2.joins group := by
    rw [show calls = booked group before from recorded before flusher _ after htrace, hbefore, booked_append, hempty]
    · simp [Act.joins]
    · exact List.forall_mem_cons.2 ⟨rfl, hkept⟩
  cases hcloses with
  | collect _ hcollector hlaunched =>
      obtain rfl := hcollector.symm.trans hactor
      exact ⟨opener, number, args, enrolment, _, _, mem_life_of_split hopening hopens.actor, hopens.opened, hcalls, hlaunched⟩

/-- An answer that a call receives is its share of what the function returned to a flush of its group. -/
theorem flush_of_receive {slot : Slot} {outcome : Outcome}
    (hreceived : .acted (.receive slot) (some outcome) ∈ life (deeds trace task) number) :
    ∃ group args enrolment flusher place calls returned,
      .acted (.enroll group args) enrolment ∈ life (deeds trace task) number ∧ (enrolment : Enrolment).slot = slot ∧
        Returned (life (deeds trace flusher) place) group (underlying group.definition) calls returned ∧
          ShareOf (underlying group.definition) calls ⟨args, slot⟩ returned outcome := by
  have recorded := (setting.books fresh runs).recorded
  obtain ⟨group, args, enrolment, henrolled, rfl, hanswers⟩ := setting.enrolled_of_receive fresh runs hreceived
  obtain ⟨flusher, place, other, calls, returned, hreturned, hshare⟩ := setting.share_of_answers fresh runs hanswers
  refine ⟨group, args, enrolment, flusher, place, calls, returned, henrolled, rfl, ?_⟩
  -- the call that was collected is the one that was enrolled
  obtain ⟨call, hcall, hslot⟩ : ∃ call ∈ calls, call.slot = enrolment.slot := by
    have hmem := List.mem_map_of_mem (f := Prod.fst) hshare
    rw [map_fst_shares] at hmem
    simpa using hmem
  obtain ⟨before, after, htrace, -⟩ := exists_of_life hreturned.collected
  obtain ⟨earlier, later, henrolling, -⟩ := exists_of_life henrolled
  have hbooked : calls = booked other before := recorded before flusher _ after htrace
  obtain ⟨seen, running, another, rest, hbefore, hsame, -⟩ := mem_booked_iff.1 (hbooked ▸ hcall)
  have hagain : trace = seen ++ (running, .acted (.enroll other call.args) another) ::
      (rest ++ (flusher, .acted (.collect other) calls) :: after) := by
    rw [htrace, hbefore]
    simp
  obtain ⟨-, hentry⟩ := recorded.enrolled_once henrolling hagain (hslot.symm.trans hsame.symm)
  cases hentry
  obtain ⟨args, slot⟩ := call
  obtain rfl : slot = enrolment.slot := hslot
  exact ⟨hreturned, shareOf_of_mem_shares (nodup_of_collected recorded hreturned.collected) hcall hshare⟩

end Setting

/-- A batch is computed under the context of the caller who opened it, whatever the contexts of the others are.

There is an account of all processes by which clients have their own contexts, and handlers are given the context of
the process that they serve and of all that it descends from.  Every answer that a call receives is its share of what
the function returned to the flusher of its batch, and the flusher has the context of the caller whose call is the first
one of the batch.  All processes do the same when the contexts of some of them are replaced, as long as their own
handlers do not look at these contexts. -/
theorem computed_under_opener (setting : Setting machine underlying) (fresh : Fresh underlying first)
    (runs : Runs machine first trace system) :
    (∃ descent, Origins machine first descent trace system.parked ∧
      (∀ ancestor task, Descends descent trace ancestor task →
        ∀ act ∈ deeds trace task, act.ServedUnder machine (descent.context ancestor)) ∧
      ∀ task number slot outcome, .acted (.receive slot) (some outcome) ∈ life (deeds trace task) number →
        ∃ group args enrolment flusher place calls returned,
          .acted (.enroll group args) enrolment ∈ life (deeds trace task) number ∧ (enrolment : Enrolment).slot = slot ∧
          Returned (life (deeds trace flusher) place) group (underlying group.definition) calls returned ∧
          ShareOf (underlying group.definition) calls ⟨args, slot⟩ returned outcome ∧
          (Unintercepted machine → ∃ opener number args opening rest,
            .acted (.enroll group args) opening ∈ life (deeds trace opener) number ∧
            calls = ⟨args, (opening : Enrolment).slot⟩ :: rest ∧ descent.context flusher = descent.context opener)) ∧
    ∀ swap, RunsWith machine (System.Unmoved swap machine) first trace system →
      Runs machine (first.recontext swap) trace (system.recontext swap) := by
  refine ⟨?_, fun swap hruns => hruns.recontext⟩
  obtain ⟨descent, origins, hlineage⟩ : ∃ descent, Origins machine first descent trace system.parked ∧
      (Unintercepted machine → Lineage machine underlying first descent trace system.parked) := by
    by_cases hunintercepted : Unintercepted machine
    · obtain ⟨descent, lineage⟩ := setting.lineage hunintercepted fresh runs
      exact ⟨descent, lineage.origins, fun _ => lineage⟩
    · obtain ⟨descent, origins⟩ := runs.origins
      exact ⟨descent, origins, fun hother => absurd hother hunintercepted⟩
  refine ⟨descent, origins, ?_, ?_⟩
  · intro ancestor task hdescends act hmem
    rw [← origins.context_of_descends hdescends]
    exact origins.served task act hmem
  · intro task number slot outcome hreceived
    obtain ⟨group, args, enrolment, flusher, place, calls, returned, henrolled, hslot, hreturned, hshare⟩ :=
      setting.flush_of_receive fresh runs hreceived
    refine ⟨group, args, enrolment, flusher, place, calls, returned, henrolled, hslot, hreturned, hshare, ?_⟩
    intro unintercepted
    obtain ⟨opener, frame, more, opening, rest, window, hopening, -, hcalls, hlaunched⟩ :=
      setting.opening_of_collect fresh runs unintercepted (hlineage unintercepted) hreturned.collected
    exact ⟨opener, frame, more, opening, rest, hopening, hcalls, context_of_launchedBy origins hlaunched⟩

/-! ## Callers with different contexts -/

/-- The function that batches are computed by. -/
def shared : Function :=
  ⟨0, "f"⟩

/-- A machine that batches the calls of a function under one key. -/
def batching (window : Nat) (handlers : List (String × Handler)) (body : List Value → Body) : Machine where
  registry := { handlers := (Kind.under Kind.batch "execute", .ofHandle fun operation _ => handle 0 window operation) :: handlers }
  library := ⟨fun function args => if function = shared then ⟨none, body args⟩ else computation 0 shared (some (.str "k")) args⟩

/-- A call of the batched function. -/
def callBatched (arg : Value) : Effect :=
  .call ⟨1, "b"⟩ [arg]

/-- A host on which callers wait, each with its context. -/
def callers (calls : List (Context × Body)) : Host :=
  calls.foldl (fun host call => (host.spawn (.client (.evaluate call.1 call.2))).2) {}

theorem of_mem_callers {calls : List (Context × Body)} {process : Process} (hmem : process ∈ (callers calls).processes) :
    ∃ call ∈ calls, process.activity = .client (.evaluate call.1 call.2) := by
  refine List.foldlRecOn (motive := fun (host : Host) => ∀ process ∈ host.processes,
    ∃ call ∈ calls, process.activity = .client (.evaluate call.1 call.2)) calls _ (List.forall_mem_nil _) ?_ process hmem
  intro host hhost call hcall process hmem
  rcases List.mem_append.1 hmem with hearlier | hnew
  · exact hhost process hearlier
  · rw [List.mem_singleton.1 hnew]
    exact ⟨call, hcall, rfl⟩

theorem batches_callers (calls : List (Context × Body)) : (callers calls).batches = {} :=
  List.foldlRecOn (motive := fun (host : Host) => host.batches = {}) calls _ rfl fun _ hhost _ _ => hhost

theorem fresh_callers {calls : List (Context × Body)}
    (hplain : ∀ call ∈ calls, ∀ passed, call.2.Plain (fun _ => shared) passed) :
    Fresh (fun _ => shared) (callers calls) where
  clients := by
    intro process hmem
    obtain ⟨call, hcall, hactivity⟩ := of_mem_callers hmem
    exact ⟨_, hactivity, hplain call hcall⟩
  batches := batches_callers calls

theorem new_callers (calls : List (Context × Body)) :
    ∀ process ∈ (callers calls).processes, process.activity.stack? = none := by
  intro process hmem
  obtain ⟨call, -, hactivity⟩ := of_mem_callers hmem
  rw [hactivity]
  rfl

theorem setting_batching {window : Nat} {handlers : List (String × Handler)} {body : List Value → Body}
    (hhandlers : ∀ entry ∈ handlers, ∀ passed operation context, operation.Fair (fun _ => shared) passed →
      (entry.2.handle operation context).Fair (fun _ => shared) passed)
    (hbody : ∀ passed args, (body args).Plain (fun _ => shared) passed) :
    Setting (batching window handlers body) fun _ => shared where
  plugins := List.forall_mem_cons.2 ⟨.inr ⟨0, window, rfl⟩, fun entry hmem => .inl (hhandlers entry hmem)⟩
  library := by
    intro passed function args
    dsimp only [batching]
    split
    · exact hbody passed args
    · exact ⟨rfl, fun _ => trivial⟩

/-- The operation that asks who calls. -/
def whoami : Effect :=
  .custom "@test/whoami" .unit

/-- A machine whose batched function gives all its calls the context that a handler finds. -/
def asking : Machine :=
  batching 0 [("@test/whoami", .ofHandle fun _ context => ⟨none, .done (.ok context.value)⟩)] fun args =>
    .perform whoami fun outcome => .done (outcome.map fun caller => .list (args.map fun _ => caller))

/-- Two callers that call the batched function, each with its context. -/
def mixers (one other : Context) : Host :=
  callers [(one, .perform (callBatched (.int 1)) .done), (other, .perform (callBatched (.int 2)) .done)]

/-- What becomes of the two callers. -/
def mixing (one other : Context) : Trace × System :=
  ({ host := mixers one other } : System).execute asking 60

/-- Whether an outcome is a text. -/
def isText (text : String) : Option Outcome → Bool
  | some (.ok (.str other)) => other = text
  | _ => false

theorem eq_of_isText {text : String} {outcome : Option Outcome} (htext : isText text outcome = true) :
    outcome = some (.ok (.str text)) := by
  unfold isText at htext
  split at htext
  · rw [of_decide_eq_true htext]
  · cases htext

/-- The second caller is answered with the context of the first one, whose call opened the batch. -/
theorem mixes_contexts :
    (mixers (.named "a") (.named "b")).activities[1]?.bind Activity.context? = some (.named "b") ∧
      (mixing (.named "a") (.named "b")).2.host.outcome? ⟨1⟩ = some (.ok (.str "a")) ∧
      (mixing (.named "c") (.named "b")).2.host.outcome? ⟨1⟩ = some (.ok (.str "c")) :=
  ⟨rfl, eq_of_isText (by decide +kernel), eq_of_isText (by decide +kernel)⟩

/-- The context of the second caller is replaced. -/
def replacing (context : Context) : Context :=
  if context.identity = .shared "b" then .named "c" else context

/-- Whether nothing that the running process may hand to the machine asks who calls, if its context is replaced. -/
def unasked (system : System) : Bool :=
  match system.current with
  | some (_, activity) =>
    match activity.context? with
    | some context =>
      context.identity ≠ .shared "b" ||
        (activity.hands asking).all fun effect => effect.looked.all fun operation => operation.kind ≠ "@test/whoami"
    | none => true
  | none => true

theorem unmoved_of_unasked (system : System) (hunasked : unasked system = true) :
    System.Unmoved replacing asking system := by
  intro task activity context hcurrent hcontext effect heffect operation hoperation entry hentry hkind
  simp only [unasked, hcurrent, hcontext, Bool.or_eq_true, decide_eq_true_eq] at hunasked
  rcases hunasked with hother | hquiet
  · rw [show replacing context = context from if_neg hother]
    exact ⟨rfl, rfl⟩
  · have hnone : operation.kind ≠ "@test/whoami" := by
      have hall := List.all_eq_true.1 (List.all_eq_true.1 hquiet effect heffect) operation hoperation
      exact of_decide_eq_true hall
    rcases List.mem_cons.1 hentry with rfl | hentry
    · exact ⟨rfl, rfl⟩
    · rw [List.mem_singleton.1 hentry] at hkind
      exact absurd hkind.symm hnone

theorem setting_asking : Setting asking fun _ => shared :=
  setting_batching (List.forall_mem_singleton.2 fun _ _ _ _ => .inl trivial) fun _ _ => ⟨trivial, fun _ => trivial⟩

theorem unintercepted_asking : Unintercepted asking :=
  ⟨by decide +kernel, by decide +kernel⟩

theorem fresh_mixers (one other : Context) : Fresh (fun _ => shared) (mixers one other) :=
  fresh_callers <| List.forall_mem_cons.2
    ⟨fun _ => ⟨trivial, fun _ => trivial⟩, List.forall_mem_singleton.2 fun _ => ⟨trivial, fun _ => trivial⟩⟩

theorem runsWith_mixing (one other : Context) {kept : System → Prop} {test : System → Bool}
    (htest : ∀ system, test system = true → kept system)
    (hpasses : ({ host := mixers one other } : System).passes asking test 60 = true) :
    RunsWith asking kept (mixers one other) (mixing one other).1 (mixing one other).2 :=
  (RunsWith.start (new_callers _)).execute htest 60 hpasses

/-- Whether a frame received a text as the answer to a call. -/
def receivesText (text : String) (slot : Slot) (acts : List Act) : Bool :=
  acts.any fun
    | .acted (.receive other) reply => other = slot && isText text reply
    | _ => false

theorem received_of_receivesText {text : String} {slot : Slot} {acts : List Act}
    (hreceives : receivesText text slot acts = true) : .acted (.receive slot) (some (.ok (.str text))) ∈ acts := by
  obtain ⟨act, hmem, hact⟩ := List.any_eq_true.1 hreceives
  split at hact
  · rename_i other reply
    obtain ⟨hsame, htext⟩ := Bool.and_eq_true_iff.1 hact
    rw [← of_decide_eq_true hsame, ← eq_of_isText htext]
    exact hmem
  · cases hact

/-- The call of the second caller was computed under the context of the first one, and the same would have been done
under another context of the second one. -/
theorem computed_under_opener_mixing :
    (∃ descent : Descent, descent.context ⟨0⟩ = .named "a" ∧ descent.context ⟨1⟩ = .named "b" ∧
      ∃ group flusher place calls returned opener number args opening rest,
        Returned (life (deeds (mixing (.named "a") (.named "b")).1 flusher) place) group shared calls returned ∧
        .acted (.enroll group args) opening ∈ life (deeds (mixing (.named "a") (.named "b")).1 opener) number ∧
        calls = ⟨args, (opening : Enrolment).slot⟩ :: rest ∧ descent.context flusher = descent.context opener) ∧
    Runs asking (mixers (.named "a") (.named "c")) (mixing (.named "a") (.named "b")).1
      ((mixing (.named "a") (.named "b")).2.recontext replacing) := by
  have hunmoved := runsWith_mixing (.named "a") (.named "b") unmoved_of_unasked (by decide +kernel)
  obtain ⟨⟨descent, origins, -, hanswers⟩, hreplaced⟩ :=
    computed_under_opener setting_asking (fresh_mixers (.named "a") (.named "b")) hunmoved.runs
  refine ⟨⟨descent, origins.clients ⟨0⟩ _ _ rfl rfl, origins.clients ⟨1⟩ _ _ rfl rfl, ?_⟩, hreplaced replacing hunmoved⟩
  have hreceived : .acted (.receive ⟨1⟩) (some (.ok (.str "a"))) ∈
      life (deeds (mixing (.named "a") (.named "b")).1 ⟨1⟩) 2 := received_of_receivesText (by decide +kernel)
  obtain ⟨group, args, enrolment, flusher, place, calls, returned, -, -, hreturned, -, hopener⟩ :=
    hanswers ⟨1⟩ 2 ⟨1⟩ _ hreceived
  obtain ⟨opener, number, more, opening, rest, hopening, hcalls, hcontext⟩ := hopener unintercepted_asking
  exact ⟨group, flusher, place, calls, returned, opener, number, more, opening, rest, hreturned, hopening, hcalls, hcontext⟩

end Batch
end EffectMachine
