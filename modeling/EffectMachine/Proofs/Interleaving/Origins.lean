import EffectMachine.Proofs.Acts.Handling
import EffectMachine.Proofs.Interleaving.Careers
import EffectMachine.Proofs.Interleaving.Ledgers
import EffectMachine.Proofs.Interleaving.Protocols

/-!
# Where processes come from

A process has one context for all its stacks.  A client brings its own, and a forked task gets that of the process
that forked it.  Everything that a process hands to the machine is handled under its context.

* `HandledAtOnce` says that the machine handles an effect as soon as it is performed.
* `Descent` says where processes come from: their contexts, and the acts that forked them.
* `Origins` is the account of all processes: what was handled under their contexts, and what became of every effect
  that was forked.  `Runs.origins` says that there is always such an account, and `Runs.origins_with` that it goes
  with whatever else is kept about where processes come from.
-/

namespace EffectMachine

/-- The context of a process, as far as it is known from what the process is doing. -/
def Activity.context? : Activity → Option Context
  | .forked context _ | .client (.evaluate context _) => some context
  | .task stack | .run stack _ => some stack.context
  | .client (.join _) | .gathering .. | .ended _ => none

/-- Every effect that was performed was handled at once, under a context, unless the stack took note of a
cancellation. -/
def HandledAtOnce (machine : Machine) (context : Context) (scheduled : Bool) (acts : List Act) : Prop :=
  ∀ before effect more, acts = before ++ .performed effect :: more →
    (∃ later, more = .noticed :: later) ∨
      ∃ run later, run.stack.context = context ∧ run.host.scheduled = scheduled ∧
        more = machine.handleActs effect run ++ later

/-- An item of a list stands in one of two parts. -/
theorem split_of_append {α : Type} {first second before after : List α} {item : α}
    (hsplit : first ++ second = before ++ item :: after) :
    (∃ rest, first = before ++ item :: rest ∧ after = rest ++ second) ∨
      ∃ rest, before = first ++ rest ∧ second = rest ++ item :: after := by
  rcases List.append_eq_append_iff.1 hsplit with hsecond | ⟨rest, hfirst, hrest⟩
  · exact .inr hsecond
  · cases rest with
    | nil => exact .inr ⟨[], by simpa using hfirst.symm, hrest.symm⟩
    | cons head rest =>
        obtain ⟨rfl, hafter⟩ := List.cons.inj hrest
        exact .inl ⟨rest, hfirst, hafter⟩

/-- Of two items of a list, one stands before the other, unless they are the same. -/
theorem order_of_splits {α : Type} {before after other later : List α} {item another : α}
    (hsplit : before ++ item :: after = other ++ another :: later) :
    (before = other ∧ item = another ∧ after = later) ∨
      (∃ mid, other = before ++ item :: mid ∧ after = mid ++ another :: later) ∨
      ∃ mid, before = other ++ another :: mid ∧ later = mid ++ item :: after := by
  rcases split_of_append hsplit with hearlier | ⟨rest, hother, hrest⟩
  · exact .inr (.inr hearlier)
  · cases rest with
    | nil =>
        obtain ⟨hitem, hafter⟩ := List.cons.inj hrest
        exact .inl ⟨by simpa using hother.symm, hitem, hafter⟩
    | cons head rest =>
        obtain ⟨rfl, hafter⟩ := List.cons.inj hrest
        exact .inr (.inl ⟨rest, hother, hafter⟩)

/-- Some more acts handle the effects that they perform. -/
theorem HandledAtOnce.append {machine : Machine} {context : Context} {scheduled : Bool} {acts own : List Act}
    (handled : HandledAtOnce machine context scheduled acts)
    (hown : HandledAtOnce machine context scheduled own) :
    HandledAtOnce machine context scheduled (acts ++ own) := by
  intro before effect more hacts
  rcases split_of_append hacts with ⟨rest, hearlier, rfl⟩ | ⟨rest, -, hlater⟩
  · rcases handled before effect rest hearlier with ⟨rest, rfl⟩ | ⟨run, rest, hcontext, hscheduled, rfl⟩
    · exact .inl ⟨rest ++ own, rfl⟩
    · exact .inr ⟨run, rest ++ own, hcontext, hscheduled, by simp⟩
  · exact hown rest effect more hlater

/-- What a step of a process does is done under the context of the process. -/
structure Machine.Under (machine : Machine) (host : Host) (own : List Act) (later : Host) (context : Context) :
    Prop where
  activities : later.activities = host.activities ++ own.flatMap (Act.spawned context)
  handled : HandledAtOnce machine context host.scheduled own
  served : ∀ act ∈ own, act.ServedUnder machine context

namespace Machine.Advances

variable {machine : Machine} {task : TaskId} {host later : Host} {activity after : Activity} {own : List Act}

/-- A process keeps its context. -/
theorem context?_eq (hadvances : machine.Advances task host activity own after later) {context : Context}
    (hcontext : after.context? = some context) : activity.context? = some context := by
  have hstep (stack : Stack) : (machine.step { stack, host }).next.context = stack.context := by
    have hchain := (machine.step_chain { stack, host }).context_eq
    rwa [Stepped.run_eq] at hchain
  cases hadvances with
  | begin context effect =>
      rw [← hcontext]
      exact congrArg some (machine.handle_chain effect { stack := { context, signal := some task }, host }).context_eq.symm
  | submit context effect resume =>
      rw [← hcontext]
      exact congrArg some
        (machine.handle_chain (machine.submission effect) { stack := { context, signal := none }, host }).context_eq.symm
  | step stack habove =>
      rw [← hcontext]
      exact congrArg some (hstep stack).symm
  | runStep stack resume habove =>
      rw [← hcontext]
      exact congrArg some (hstep stack).symm
  | runEnd | act | wait => exact hcontext
  | settle | done | sendOut | gather | «await» | report | rest => cases hcontext

/-- A process that does anything does it under its context. -/
theorem under (hadvances : machine.Advances task host activity own after later)
    (hkept : ∀ stack body, activity.stack? = some stack → stack.top.progress = .running body →
      stack.top.cancellation = .none) :
    own = [] ∨ ∃ context, activity.context? = some context ∧ machine.Under host own later context := by
  have hhandle (effect : Effect) (run : Run) (hhost : run.host = host) :
      machine.Under host (machine.handleActs effect run) (machine.handle effect run).host run.stack.context := by
    refine ⟨hhost ▸ (machine.handle_chain effect run).activities, ?_, machine.servedUnder_handleActs effect run⟩
    intro before other more hacts
    have hmem : .performed other ∈ machine.handleActs effect run := by simp [hacts]
    exact absurd (machine.handles_handleActs _ _ _ hmem) Bool.false_ne_true
  have hstep (stack : Stack) (hstack : activity.stack? = some stack) :
      machine.Under host (machine.stepActs { stack, host }) (machine.step { stack, host }).host stack.context := by
    have hactivities := (machine.step_chain { stack, host }).activities
    rw [Stepped.run_eq] at hactivities
    refine ⟨hactivities, ?_, machine.servedUnder_stepActs { stack, host }⟩
    intro before effect more hacts
    obtain ⟨-, resume, -, hmore⟩ := machine.handled_stepActs (fun body hrunning => hkept stack body hstack hrunning) hacts
    exact hmore.imp (fun hnoticed => ⟨[], hnoticed⟩) fun hhandled =>
      ⟨Run.asking { stack, host } resume, [], rfl, rfl, by rw [hhandled, List.append_nil]⟩
  cases hadvances with
  | begin context effect => exact .inr ⟨context, rfl, hhandle effect _ rfl⟩
  | submit context effect resume => exact .inr ⟨context, rfl, hhandle (machine.submission effect) _ rfl⟩
  | step stack habove => exact .inr ⟨stack.context, rfl, hstep stack rfl⟩
  | runStep stack resume habove => exact .inr ⟨stack.context, rfl, hstep stack rfl⟩
  | _ => exact .inl rfl

end Machine.Advances

/-- Where the processes of a system come from: the context of each, and for a task that was forked how many acts were
done before. -/
structure Descent where
  context : TaskId → Context
  birth : TaskId → Option Nat

/-- The account of all processes of a system that began on a host, given where they come from. -/
structure Origins (machine : Machine) (first : Host) (descent : Descent) (trace : Trace) (host : Host) : Prop where
  /-- Clients have the contexts that they bring. -/
  clients : ∀ task activity context, first.activities[task.index]? = some activity →
    activity.context? = some context → descent.context task = context
  /-- A process has its context. -/
  context : ∀ task activity context, host.activities[task.index]? = some activity →
    activity.context? = some context → context = descent.context task
  /-- Effects are handled under the context of the process that performs them. -/
  handled : ∀ task, HandledAtOnce machine (descent.context task) host.scheduled (deeds trace task)
  /-- Handlers are given the context of their process. -/
  served : ∀ task, ∀ act ∈ deeds trace task, act.ServedUnder machine (descent.context task)
  /-- An effect that was forked has become a task of its own, under the same context, which has done nothing
  before. -/
  careers : ∀ before task effect after, trace = before ++ (task, .forked effect) :: after →
    ∃ forked activity, descent.birth forked = some before.length ∧ forked ≠ task ∧
      descent.context forked = descent.context task ∧ deeds before forked = [] ∧
      host.activities[forked.index]? = some activity ∧
      Career machine (descent.context task) forked effect (deeds after forked) activity
  /-- A task that has not begun was forked with its effect, or is one of the first. -/
  waiting : ∀ task context effect, host.activities[task.index]? = some (.forked context effect) →
    first.activities[task.index]? = some (.forked context effect) ∨
      ∃ before forker after, trace = before ++ (forker, .forked effect) :: after ∧
        descent.birth task = some before.length
  /-- A task was forked by an act, and no other task was. -/
  placed : ∀ task place, descent.birth task = some place → place < trace.length
  only : ∀ task other place, descent.birth task = some place → descent.birth other = some place → task = other
  /-- What is no process yet has done nothing. -/
  unborn : ∀ task : TaskId, host.activities.length ≤ task.index → deeds trace task = []
  longer : first.activities.length ≤ host.activities.length

/-! ### Steps of a process -/

/-- Whether an act forks an effect. -/
def Act.isFork : Act → Bool
  | .forked _ => true
  | _ => false

/-- Where the forks stand among some acts, in order. -/
def forkPlaces : List Act → List Nat
  | [] => []
  | act :: acts => (if act.isFork then [0] else []) ++ (forkPlaces acts).map (· + 1)

theorem forkPlaces_append (acts more : List Act) :
    forkPlaces (acts ++ more) = forkPlaces acts ++ (forkPlaces more).map (acts.length + ·) := by
  induction acts with
  | nil => simp [forkPlaces]
  | cons act acts ih => simp [forkPlaces, ih, Function.comp_def, Nat.add_assoc, Nat.add_comm 1]

/-- Every fork adds one task. -/
theorem length_forkPlaces (context : Context) (acts : List Act) :
    (forkPlaces acts).length = (acts.flatMap (Act.spawned context)).length := by
  induction acts with
  | nil => rfl
  | cons act acts ih =>
      rw [forkPlaces, List.length_append, List.length_map, ih, List.flatMap_cons, List.length_append]
      cases act <;> rfl

/-- No two forks stand at the same place. -/
theorem nodup_forkPlaces (acts : List Act) : (forkPlaces acts).Nodup := by
  induction acts with
  | nil => exact List.nodup_nil
  | cons act acts ih =>
      rw [forkPlaces, List.nodup_append]
      refine ⟨by split <;> simp, List.Pairwise.map _ (fun _ _ hother hsame => hother (Nat.succ.inj hsame)) ih, ?_⟩
      intro place hplace other hother
      obtain ⟨later, -, rfl⟩ := List.mem_map.1 hother
      split at hplace
      · rw [List.mem_singleton.1 hplace]
        exact (Nat.succ_ne_zero later).symm
      · cases hplace

/-- Forks stand among the acts. -/
theorem lt_of_mem_forkPlaces {acts : List Act} {place : Nat} (hmem : place ∈ forkPlaces acts) :
    place < acts.length := by
  induction acts generalizing place with
  | nil => cases hmem
  | cons act acts ih =>
      rcases List.mem_append.1 hmem with hhere | hlater
      · split at hhere
        · rw [List.mem_singleton.1 hhere]
          exact Nat.succ_pos _
        · cases hhere
      · obtain ⟨earlier, hearlier, rfl⟩ := List.mem_map.1 hlater
        exact Nat.succ_lt_succ (ih hearlier)

/-- A task that is added was forked by an act. -/
theorem exists_of_spawned {known : Context} {acts : List Act} {rank : Nat} {activity : Activity}
    (hspawned : (acts.flatMap (Act.spawned known))[rank]? = some activity) :
    ∃ seen effect rest, acts = seen ++ .forked effect :: rest ∧ activity = .forked known effect ∧
      rank = (seen.flatMap (Act.spawned known)).length := by
  induction acts generalizing rank with
  | nil => simp at hspawned
  | cons act acts ih =>
      rw [List.flatMap_cons] at hspawned
      have hskip (rank : Nat) (hrest : (acts.flatMap (Act.spawned known))[rank]? = some activity) :
          ∃ seen effect rest, act :: acts = seen ++ .forked effect :: rest ∧ activity = .forked known effect ∧
            (act.spawned known).length + rank = (seen.flatMap (Act.spawned known)).length := by
        obtain ⟨seen, effect, rest, rfl, rfl, rfl⟩ := ih hrest
        exact ⟨act :: seen, effect, rest, rfl, rfl, by simp⟩
      cases act with
      | forked effect =>
          cases rank with
          | zero => exact ⟨[], effect, acts, rfl, (Option.some.inj hspawned).symm, rfl⟩
          | succ rank =>
              obtain ⟨seen, other, rest, hacts, hactivity, hrank⟩ := hskip rank (by simpa [Act.spawned] using hspawned)
              exact ⟨seen, other, rest, hacts, hactivity, by rw [← hrank]; exact Nat.add_comm rank 1⟩
      | _ =>
          obtain ⟨seen, other, rest, hacts, hactivity, hrank⟩ := hskip rank (by simpa [Act.spawned] using hspawned)
          exact ⟨seen, other, rest, hacts, hactivity, by simpa [Act.spawned] using hrank⟩

/-- Where processes come from after a step of a process that did some acts.  The processes that are added bring their
contexts with them. -/
def Descent.grow (descent : Descent) (trace : Trace) (own : List Act) (host later : Host) : Descent where
  context process :=
    if process.index < host.activities.length then descent.context process
    else ((later.activities[process.index]?).bind Activity.context?).getD (descent.context process)
  birth process :=
    if process.index < host.activities.length then descent.birth process
    else ((forkPlaces own)[process.index - host.activities.length]?).map (trace.length + ·)

namespace Descent

variable {descent : Descent} {trace : Trace} {own : List Act} {host later : Host} {process : TaskId}

theorem context_grow_of_lt (hborn : process.index < host.activities.length) :
    (descent.grow trace own host later).context process = descent.context process :=
  if_pos hborn

theorem birth_grow_of_lt (hborn : process.index < host.activities.length) :
    (descent.grow trace own host later).birth process = descent.birth process :=
  if_pos hborn

/-- A task that is added was forked by one of the acts. -/
theorem birth_grow_of_le (hnew : host.activities.length ≤ process.index) {place : Nat}
    (hbirth : (descent.grow trace own host later).birth process = some place) :
    ∃ rank, (forkPlaces own)[process.index - host.activities.length]? = some rank ∧ place = trace.length + rank := by
  have hbirth : ite _ _ _ = some place := hbirth
  rw [if_neg (Nat.not_lt_of_le hnew)] at hbirth
  obtain ⟨rank, hrank, rfl⟩ := Option.map_eq_some_iff.1 hbirth
  exact ⟨rank, hrank, rfl⟩

/-- The task that an act forked. -/
theorem birth_grow_fork {seen rest : List Act} {effect : Effect} (hown : own = seen ++ .forked effect :: rest)
    (context : Context) (hindex : process.index = host.activities.length + (seen.flatMap (Act.spawned context)).length) :
    (descent.grow trace own host later).birth process = some (trace.length + seen.length) := by
  have hplaces : (forkPlaces own)[process.index - host.activities.length]? = some seen.length := by
    rw [hown, forkPlaces_append, hindex, Nat.add_sub_cancel_left, ← length_forkPlaces context seen,
      List.getElem?_append_right (Nat.le_refl _), Nat.sub_self]
    simp [forkPlaces, Act.isFork]
  show ite _ _ _ = _
  rw [if_neg (by omega), hplaces, Option.map_some]

end Descent

/-- What processes are doing when it is noted what one of them is doing. -/
theorem Host.getElem?_activities_park (host : Host) {task : TaskId} (activity : Activity)
    (hborn : task.index < host.activities.length) (process : TaskId) :
    (host.park task activity).activities[process.index]? =
      if process = task then some activity else host.activities[process.index]? := by
  rw [Host.activities_park, List.getElem?_set]
  by_cases hsame : process = task
  · simp [hsame, hborn]
  · have hindex : task.index ≠ process.index := fun hindex => hsame (congrArg TaskId.mk hindex.symm)
    simp [hsame, hindex]

theorem Host.length_activities_park (host : Host) (task : TaskId) (activity : Activity) :
    (host.park task activity).activities.length = host.activities.length := by
  rw [Host.activities_park, List.length_set]

namespace Origins

variable {machine : Machine} {first : Host} {descent : Descent} {trace : Trace} {task : TaskId} {host later : Host}
variable {activity after : Activity} {own : List Act}

/-- What the processes were doing that are not the one that makes a step. -/
theorem getElem?_activities (hborn : task.index < host.activities.length)
    (hadvances : machine.Advances task host activity own after later) {process : TaskId} (hother : process ≠ task)
    (hprocess : process.index < host.activities.length) :
    (later.park task after).activities[process.index]? = (host.park task activity).activities[process.index]? := by
  obtain ⟨added, hadded, -⟩ := hadvances.activities
  rw [host.getElem?_activities_park activity hborn, later.getElem?_activities_park after (by simp [hadded]; omega),
    if_neg hother, if_neg hother, hadded, List.getElem?_append_left hprocess]

theorem deeds_step (trace : Trace) (task : TaskId) (own : List Act) (process : TaskId) :
    deeds (trace ++ own.map fun act => (task, act)) process = deeds trace process ++ if process = task then own else [] := by
  rw [deeds_append]
  by_cases hsame : process = task
  · rw [if_pos hsame, hsame, deeds_own]
  · rw [if_neg hsame, deeds_other fun h => hsame h.symm]

variable (origins : Origins machine first descent trace (host.park task activity))
  (hborn : task.index < host.activities.length) (hadvances : machine.Advances task host activity own after later)
include origins hborn

/-- The running process has its context. -/
theorem context_current {context : Context} (hcontext : activity.context? = some context) :
    context = descent.context task :=
  origins.context task activity context (by rw [host.getElem?_activities_park activity hborn, if_pos rfl]) hcontext

omit hborn in
/-- What has done something is a process. -/
theorem lt_of_mem {process : TaskId} {act : Act} (hmem : (process, act) ∈ trace) :
    process.index < host.activities.length := by
  by_contra hnew
  have hnone := origins.unborn process (by rw [host.length_activities_park]; exact Nat.le_of_not_lt hnew)
  have hdeed := mem_deeds_iff.2 hmem
  rw [hnone] at hdeed
  cases hdeed

include hadvances

theorem step_context (process : TaskId) (doing : Activity) (context : Context)
    (hdoing : (later.park task after).activities[process.index]? = some doing) (hknown : doing.context? = some context) :
    context = (descent.grow trace own host later).context process := by
  obtain ⟨added, hadded, -⟩ := hadvances.activities
  have hlonger : task.index < later.activities.length := by
    rw [hadded, List.length_append]
    omega
  by_cases hprocess : process.index < host.activities.length
  · rw [Descent.context_grow_of_lt hprocess]
    by_cases hsame : process = task
    · subst hsame
      rw [later.getElem?_activities_park after hlonger, if_pos rfl] at hdoing
      cases hdoing
      exact origins.context_current hborn (hadvances.context?_eq hknown)
    · rw [getElem?_activities hborn hadvances hsame hprocess] at hdoing
      exact origins.context process doing context hdoing hknown
  · have hother : process ≠ task := fun hsame => hprocess (hsame ▸ hborn)
    rw [later.getElem?_activities_park after hlonger, if_neg hother] at hdoing
    show _ = ite _ _ _
    rw [if_neg hprocess, hdoing]
    simp [hknown]

theorem step_handled (hkept : ∀ stack body, activity.stack? = some stack → stack.top.progress = .running body →
      stack.top.cancellation = .none) (process : TaskId) :
    HandledAtOnce machine ((descent.grow trace own host later).context process) (later.park task after).scheduled
      (deeds (trace ++ own.map fun act => (task, act)) process) := by
  rw [deeds_step]
  show HandledAtOnce machine _ later.scheduled _
  by_cases hprocess : process.index < host.activities.length
  · rw [Descent.context_grow_of_lt hprocess, hadvances.grows.scheduled]
    have hearlier : HandledAtOnce machine (descent.context process) host.scheduled (deeds trace process) :=
      origins.handled process
    by_cases hsame : process = task
    · subst hsame
      rw [if_pos rfl]
      rcases hadvances.under hkept with rfl | ⟨context, hactivity, under⟩
      · rwa [List.append_nil]
      · have hsame := origins.context_current hborn hactivity
        exact hearlier.append (hsame ▸ under.handled)
    · rwa [if_neg hsame, List.append_nil]
  · have hother : process ≠ task := fun hsame => hprocess (hsame ▸ hborn)
    rw [origins.unborn process (by rw [host.length_activities_park]; omega), if_neg hother]
    intro before effect more hacts
    simp at hacts

theorem step_served (hkept : ∀ stack body, activity.stack? = some stack → stack.top.progress = .running body →
      stack.top.cancellation = .none) (process : TaskId) :
    ∀ act ∈ deeds (trace ++ own.map fun act => (task, act)) process,
      act.ServedUnder machine ((descent.grow trace own host later).context process) := by
  rw [deeds_step]
  intro act hmem
  by_cases hprocess : process.index < host.activities.length
  · rw [Descent.context_grow_of_lt hprocess]
    rcases List.mem_append.1 hmem with hmem | hmem
    · exact origins.served process act hmem
    · by_cases hsame : process = task
      · subst hsame
        rw [if_pos rfl] at hmem
        rcases hadvances.under hkept with rfl | ⟨context, hactivity, under⟩
        · cases hmem
        · exact origins.context_current hborn hactivity ▸ under.served act hmem
      · rw [if_neg hsame] at hmem
        cases hmem
  · have hother : process ≠ task := fun hsame => hprocess (hsame ▸ hborn)
    rw [origins.unborn process (by rw [host.length_activities_park]; omega), if_neg hother] at hmem
    cases hmem

/-- What was forked before goes on. -/
theorem step_career {before : Trace} {forker : TaskId} {effect : Effect} {rest : Trace}
    (htrace : trace = before ++ (forker, .forked effect) :: rest) :
    ∃ forked doing, (descent.grow trace own host later).birth forked = some before.length ∧ forked ≠ forker ∧
      (descent.grow trace own host later).context forked = (descent.grow trace own host later).context forker ∧
      deeds before forked = [] ∧ (later.park task after).activities[forked.index]? = some doing ∧
      Career machine ((descent.grow trace own host later).context forker) forked effect
        (deeds (rest ++ own.map fun act => (task, act)) forked) doing := by
  obtain ⟨forked, doing, hbirth, hother, hsame, hdone, hdoing, career⟩ := origins.careers before forker effect rest htrace
  have hforker : forker.index < host.activities.length := by
    have hmem : (forker, .forked effect) ∈ trace := by simp [htrace]
    exact origins.lt_of_mem hmem
  have hforked : forked.index < host.activities.length := by
    have hindex := (List.getElem?_eq_some_iff.1 hdoing).1
    rwa [host.length_activities_park] at hindex
  obtain ⟨added, hadded, -⟩ := hadvances.activities
  have hlonger : task.index < later.activities.length := by
    rw [hadded, List.length_append]
    omega
  rw [Descent.context_grow_of_lt hforker]
  by_cases hself : forked = task
  · subst hself
    rw [host.getElem?_activities_park activity hborn, if_pos rfl] at hdoing
    cases hdoing
    refine ⟨forked, after, ?_, hother, ?_, hdone, ?_, ?_⟩
    · rwa [Descent.birth_grow_of_lt hforked]
    · rwa [Descent.context_grow_of_lt hforked]
    · rw [later.getElem?_activities_park after hlonger, if_pos rfl]
    · rw [deeds_step, if_pos rfl]
      exact career.advances hadvances
  · refine ⟨forked, doing, ?_, hother, ?_, hdone, ?_, ?_⟩
    · rwa [Descent.birth_grow_of_lt hforked]
    · rwa [Descent.context_grow_of_lt hforked]
    · rwa [getElem?_activities hborn hadvances hself hforked]
    · rwa [deeds_step, if_neg hself, List.append_nil]

/-- What a step forks becomes a task. -/
theorem step_fork (hkept : ∀ stack body, activity.stack? = some stack → stack.top.progress = .running body →
      stack.top.cancellation = .none) {seen rest : List Act} {effect : Effect}
    (hown : own = seen ++ .forked effect :: rest) :
    ∃ forked, (descent.grow trace own host later).birth forked = some (trace.length + seen.length) ∧
      host.activities.length ≤ forked.index ∧ descent.context task = (descent.grow trace own host later).context forked ∧
      (later.park task after).activities[forked.index]? = some (.forked (descent.context task) effect) := by
  rcases hadvances.under hkept with hnone | ⟨context, hactivity, under⟩
  · rw [hnone] at hown
    simp at hown
  · obtain rfl := origins.context_current hborn hactivity
    let forked : TaskId := ⟨host.activities.length + (seen.flatMap (Act.spawned (descent.context task))).length⟩
    have hnew : host.activities.length ≤ forked.index := Nat.le_add_right _ _
    have hother : forked ≠ task := fun hsame => absurd (hsame ▸ hborn) (Nat.not_lt_of_le hnew)
    have hforked : later.activities[forked.index]? = some (.forked (descent.context task) effect) := by
      rw [under.activities, hown]
      simp [forked, Act.spawned]
    refine ⟨forked, Descent.birth_grow_fork hown _ rfl, hnew, ?_, ?_⟩
    · show _ = ite _ _ _
      rw [if_neg (Nat.not_lt_of_le hnew), hforked]
      rfl
    · rw [later.getElem?_activities_park after ?_, if_neg hother]
      · exact hforked
      · rw [under.activities, List.length_append]
        omega

theorem step_careers (hkept : ∀ stack body, activity.stack? = some stack → stack.top.progress = .running body →
      stack.top.cancellation = .none) (before : Trace) (forker : TaskId) (effect : Effect) (more : Trace)
    (hacts : trace ++ (own.map fun act => (task, act)) = before ++ (forker, .forked effect) :: more) :
    ∃ forked doing, (descent.grow trace own host later).birth forked = some before.length ∧ forked ≠ forker ∧
      (descent.grow trace own host later).context forked = (descent.grow trace own host later).context forker ∧
      deeds before forked = [] ∧ (later.park task after).activities[forked.index]? = some doing ∧
      Career machine ((descent.grow trace own host later).context forker) forked effect (deeds more forked) doing := by
  rcases split_of_append hacts with ⟨rest, hearlier, rfl⟩ | ⟨within, rfl, hwithin⟩
  · exact origins.step_career hborn hadvances hearlier
  · obtain ⟨seen, others, hown, rfl, hothers⟩ := List.map_eq_append_iff.1 hwithin
    obtain ⟨act, rest, rfl, hact, rfl⟩ := List.map_eq_cons_iff.1 hothers
    obtain ⟨rfl, rfl⟩ := Prod.mk.inj hact
    obtain ⟨forked, hbirth, hnew, hcontext, hforked⟩ := origins.step_fork hborn hadvances hkept hown
    have hother : forked ≠ task := fun hsame => absurd (hsame ▸ hborn) (Nat.not_lt_of_le hnew)
    rw [Descent.context_grow_of_lt hborn]
    refine ⟨forked, _, ?_, hother, hcontext.symm, ?_, hforked, ?_⟩
    · rw [hbirth, List.length_append, List.length_map]
    · rw [deeds_append, origins.unborn forked (by rwa [host.length_activities_park])]
      exact deeds_other hother.symm seen
    · rw [deeds_other hother.symm rest]
      exact .waiting

theorem step_waiting (hkept : ∀ stack body, activity.stack? = some stack → stack.top.progress = .running body →
      stack.top.cancellation = .none) (process : TaskId) (context : Context) (effect : Effect)
    (hwaiting : (later.park task after).activities[process.index]? = some (.forked context effect)) :
    first.activities[process.index]? = some (.forked context effect) ∨
      ∃ before forker more, trace ++ (own.map fun act => (task, act)) = before ++ (forker, .forked effect) :: more ∧
        (descent.grow trace own host later).birth process = some before.length := by
  obtain ⟨added, hadded, hadds⟩ := hadvances.activities
  have hlonger : task.index < later.activities.length := by
    rw [hadded, List.length_append]
    omega
  by_cases hprocess : process.index < host.activities.length
  · by_cases hsame : process = task
    · subst hsame
      rw [later.getElem?_activities_park after hlonger, if_pos rfl] at hwaiting
      cases hwaiting
      cases hadvances
    · rw [getElem?_activities hborn hadvances hsame hprocess] at hwaiting
      refine (origins.waiting process context effect hwaiting).imp id ?_
      rintro ⟨before, forker, more, rfl, hbirth⟩
      refine ⟨before, forker, more ++ own.map fun act => (task, act), by simp, ?_⟩
      rwa [Descent.birth_grow_of_lt hprocess]
  · -- the effect was forked by this step
    have hother : process ≠ task := fun hsame => hprocess (hsame ▸ hborn)
    rw [later.getElem?_activities_park after hlonger, if_neg hother] at hwaiting
    rcases hadvances.under hkept with rfl | ⟨known, hactivity, under⟩
    · rw [hadded, List.getElem?_append_right (Nat.le_of_not_lt hprocess)] at hwaiting
      cases hadds _ (List.mem_of_getElem? hwaiting) with
      | forked _ hforked => cases hforked
    · rw [under.activities, List.getElem?_append_right (Nat.le_of_not_lt hprocess)] at hwaiting
      obtain ⟨seen, other, rest, hown, hsame, hrank⟩ := exists_of_spawned hwaiting
      obtain ⟨rfl, rfl⟩ := Activity.forked.inj hsame
      refine .inr ⟨trace ++ seen.map fun act => (task, act), task, rest.map fun act => (task, act), ?_, ?_⟩
      · simp [hown]
      · rw [Descent.birth_grow_fork hown context (by omega), List.length_append, List.length_map]

omit hborn hadvances in
theorem step_only (process other : TaskId) (place : Nat)
    (hprocess : (descent.grow trace own host later).birth process = some place)
    (hagain : (descent.grow trace own host later).birth other = some place) : process = other := by
  by_cases hold : process.index < host.activities.length <;> by_cases hearly : other.index < host.activities.length
  · rw [Descent.birth_grow_of_lt hold] at hprocess
    rw [Descent.birth_grow_of_lt hearly] at hagain
    exact origins.only process other place hprocess hagain
  · rw [Descent.birth_grow_of_lt hold] at hprocess
    obtain ⟨rank, -, rfl⟩ := Descent.birth_grow_of_le (Nat.le_of_not_lt hearly) hagain
    have hplace := origins.placed process _ hprocess
    omega
  · rw [Descent.birth_grow_of_lt hearly] at hagain
    obtain ⟨rank, -, rfl⟩ := Descent.birth_grow_of_le (Nat.le_of_not_lt hold) hprocess
    have hplace := origins.placed other _ hagain
    omega
  · obtain ⟨rank, hrank, rfl⟩ := Descent.birth_grow_of_le (Nat.le_of_not_lt hold) hprocess
    obtain ⟨same, hsame, hranks⟩ := Descent.birth_grow_of_le (Nat.le_of_not_lt hearly) hagain
    obtain rfl : rank = same := by omega
    have hindex := (List.getElem?_inj (List.getElem?_eq_some_iff.1 hrank).1 (nodup_forkPlaces own)).1 (hrank.trans hsame.symm)
    exact congrArg TaskId.mk (by omega)

omit hborn hadvances in
theorem step_placed (process : TaskId) (place : Nat)
    (hbirth : (descent.grow trace own host later).birth process = some place) :
    place < (trace ++ own.map fun act => (task, act)).length := by
  rw [List.length_append, List.length_map]
  by_cases hold : process.index < host.activities.length
  · rw [Descent.birth_grow_of_lt hold] at hbirth
    have hplace := origins.placed process place hbirth
    omega
  · obtain ⟨rank, hrank, rfl⟩ := Descent.birth_grow_of_le (Nat.le_of_not_lt hold) hbirth
    have hlt := lt_of_mem_forkPlaces (List.mem_of_getElem? hrank)
    omega

/-- The account goes on with a step of a process. -/
theorem advance (hkept : ∀ stack body, activity.stack? = some stack → stack.top.progress = .running body →
      stack.top.cancellation = .none) :
    Origins machine first (descent.grow trace own host later) (trace ++ own.map fun act => (task, act))
      (later.park task after) := by
  have hlonger := origins.longer
  rw [host.length_activities_park] at hlonger
  obtain ⟨added, hadded, -⟩ := hadvances.activities
  have hlength : (later.park task after).activities.length = host.activities.length + added.length := by
    rw [later.length_activities_park, hadded, List.length_append]
  refine ⟨?_, origins.step_context hborn hadvances, origins.step_handled hborn hadvances hkept,
    origins.step_served hborn hadvances hkept, origins.step_careers hborn hadvances hkept,
    origins.step_waiting hborn hadvances hkept, origins.step_placed, origins.step_only,
    ?_, by omega⟩
  · intro process doing context hdoing hcontext
    have hprocess := (List.getElem?_eq_some_iff.1 hdoing).1
    rw [Descent.context_grow_of_lt (by omega)]
    exact origins.clients process doing context hdoing hcontext
  · intro process hprocess
    have hother : process ≠ task := by
      rintro rfl
      omega
    rw [deeds_step, if_neg hother, List.append_nil]
    exact origins.unborn process (by rw [host.length_activities_park]; omega)

end Origins

/-- There is always an account of all processes, together with whatever else is kept about where they come from. -/
theorem Runs.origins_with {machine : Machine} {first : Host} {trace : Trace} {system : System} {Q : Descent → Trace → Prop}
    (runs : Runs machine first trace system) (start : ∀ descent, Q descent [])
    (advance : ∀ {trace : Trace} {system : System} {task : TaskId} {activity after : Activity} {own : List Act}
      {later : Host} {descent : Descent}, Runs machine first trace system → system.current = some (task, activity) →
      machine.Advances task system.host activity own after later →
      Origins machine first descent trace (system.host.park task activity) → Q descent trace →
      Q (descent.grow trace own system.host later) (trace ++ own.map fun act => (task, act))) :
    ∃ descent, Origins machine first descent trace system.parked ∧ Q descent trace := by
  refine runs.ledger (Q := fun trace host => ∃ descent, Origins machine first descent trace host ∧ Q descent trace)
    (fun _ => ?_) ?_ ?_
  · refine ⟨⟨fun task => ((first.activities[task.index]?).bind Activity.context?).getD default, fun _ => none⟩, ?_, start _⟩
    refine ⟨?_, ?_, ?_, fun task => List.forall_mem_nil _, ?_, fun _ _ _ hfirst => .inl hfirst,
      fun _ _ hbirth => (nomatch hbirth), fun _ _ _ hbirth => (nomatch hbirth), fun _ _ => rfl, Nat.le_refl _⟩
    · intro task activity context hactivity hcontext
      simp [hactivity, hcontext]
    · intro task activity context hactivity hcontext
      simp [hactivity, hcontext]
    · intro task before effect more hacts
      simp at hacts
    · intro before task effect after hacts
      simp at hacts
  · rintro trace host other hlike ⟨descent, origins, kept⟩
    have hactivities : host.activities = other.activities := congrArg (List.map Process.activity) hlike.processes
    exact ⟨descent, ⟨origins.clients, hactivities ▸ origins.context, hlike.scheduled ▸ origins.handled, origins.served,
      hactivities ▸ origins.careers, hactivities ▸ origins.waiting, origins.placed, origins.only,
      hactivities ▸ origins.unborn, hactivities ▸ origins.longer⟩, kept⟩
  · rintro trace system task activity after own later runs hcurrent hadvances ⟨descent, origins, kept⟩
    obtain ⟨process, hprocess, -⟩ := runs.sound task activity hcurrent
    have hborn : task.index < system.host.activities.length := by
      rw [Host.activities, List.length_map]
      exact (List.getElem?_eq_some_iff.1 hprocess).1
    refine ⟨_, origins.advance hborn hadvances fun stack body hstack hrunning => ?_,
      advance runs hcurrent hadvances origins kept⟩
    have hdriven : system.driven? task = some stack := by
      rw [System.driven?, System.activity?_current runs.sound hcurrent]
      exact hstack
    obtain ⟨stages, -, stands⟩ := runs.stands task (hdriven ▸ rfl : Drives (system.driven? task) stack)
    exact stands.kept_of_running hrunning

/-- There is always an account of all processes. -/
theorem Runs.origins {machine : Machine} {first : Host} {trace : Trace} {system : System}
    (runs : Runs machine first trace system) :
    ∃ descent, Origins machine first descent trace system.parked := by
  obtain ⟨descent, origins, -⟩ := runs.origins_with (Q := fun _ _ => True) (fun _ => trivial) fun _ _ _ _ _ => trivial
  exact ⟨descent, origins⟩

/-- A task that was forked and has not begun has done nothing. -/
theorem Origins.deeds_of_waiting {machine : Machine} {first : Host} {descent : Descent} {trace : Trace} {host : Host}
    (origins : Origins machine first descent trace host) {task forker : TaskId} {context : Context} {effect : Effect}
    {before after : Trace} (hwaiting : host.activities[task.index]? = some (.forked context effect))
    (htrace : trace = before ++ (forker, .forked effect) :: after) (hbirth : descent.birth task = some before.length) :
    deeds trace task = [] := by
  obtain ⟨forked, activity, hforked, hother, -, hdone, hactivity, career⟩ := origins.careers before forker effect after htrace
  obtain rfl := origins.only forked task _ hforked hbirth
  rw [hwaiting] at hactivity
  obtain rfl := Option.some.inj hactivity
  have hlater : deeds after forked = [] := by
    generalize deeds after forked = acts at career ⊢
    cases career
    rfl
  have hown : deeds ((forker, Act.forked effect) :: after) forked = deeds after forked := by
    simp [deeds, Ne.symm hother]
  rw [htrace, deeds_append, hdone, hown, hlater, List.append_nil]

/-- The frames of all strides were pushed. -/
theorem Obeys.pos_of_stride {acts : List Act} {stages : List Stage} {act : Act} {number : Nat}
    (obeys : Obeys acts stages) (hstride : act.isStride = true) (hmem : act ∈ life acts number) : 0 < number := by
  obtain ⟨before, after, hacts, hactor⟩ := exists_of_mem_life hmem
  obtain ⟨first, last, hfirst, hprotocol⟩ := obeys.split hacts
  cases hprotocol with
  | @top stage later _ hdoes stages =>
      have hlength : 1 < (Roll.after before).live.length := by
        rw [hfirst.length_live, List.length_cons]
        omega
      have hpos := hfirst.sound.top_pos hlength
      have hhead : (Roll.after before).actor act = (Roll.after before).live.headD 0 := by
        cases act <;> first | rfl | cases hstride
      omega
  | push | drop | leave | «catch» | notice | baseDefer | baseAnswer | baseFail | baseFork => cases hstride

theorem Runs.exists_pushed {machine : Machine} {first : Host} {trace : Trace} {system : System}
    (runs : Runs machine first trace system) {task : TaskId} {number : Nat} {act : Act}
    (hstride : act.isStride = true) (hmem : act ∈ life (deeds trace task) number) :
    ∃ computation tag, .pushed computation tag ∈ life (deeds trace task) number := by
  obtain ⟨stages, obeys⟩ := runs.exists_obeys task
  have hpos := obeys.pos_of_stride hstride hmem
  obtain ⟨stack, hdrives⟩ := exists_drives (system.driven? task)
  have watched := runs.holds (Watched.invariant lives) task hdrives
  have hnext : number < (Roll.after (deeds trace task)).next := by
    by_contra hunborn
    rw [watched.tracks.unborn number (Nat.le_of_not_lt hunborn)] at hmem
    cases hmem
  obtain ⟨progress, computation, tag, later, hlife, -⟩ := watched.exists_lives hpos hnext
  exact ⟨computation, tag, hlife ▸ List.mem_cons_self⟩

end EffectMachine
