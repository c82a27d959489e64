import EffectMachine.Proofs.Batch.Services

/-!
# Where flushes come from

On a machine that nobody intercepts the running and the forking of computations on, and whose programs make no flushes
by themselves, every flush was launched by the call that opened its batch.

* `Act.Starts` says of an act that it puts a computation to work, and `Launched` what acts launch one.
* `Provenance` is where a computation that was put to work comes from: it was launched right before, or it is what its
  task was forked with.
* `Batch.Setting.lineage` says that every flush comes from there.
-/

namespace EffectMachine

/-- An act puts a computation to work, in a frame or as a task of its own. -/
def Act.Starts (computation : Computation) : Act → Prop
  | .pushed other _ => other = computation
  | .forked effect => effect = .bare computation
  | _ => False

/-- An effect launches a computation by an act, in a frame or as a task of its own. -/
inductive Launched (computation : Computation) : Effect → Act → Prop
  | here : Launched computation (.bare computation) (.pushed computation none)
  | apart : Launched computation (.fork (.bare computation)) (.forked (.bare computation))

/-- Where a computation comes from that an act puts to work: it was launched right before, or it is the first thing that
a task does which was forked with it. -/
inductive Provenance (descent : Descent) (trace : Trace) (task : TaskId) (computation : Computation) :
    List Act → Act → Prop
  | launched (before : List Act) {effect : Effect} {act : Act} (hlaunched : Launched computation effect act) :
      Provenance descent trace task computation (before ++ [.performed effect]) act
  | begun {before after : Trace} {forker : TaskId} (htrace : trace = before ++ (forker, .forked (.bare computation)) :: after)
      (hbirth : descent.birth task = some before.length) :
      Provenance descent trace task computation [] (.pushed computation none)

namespace Batch

variable {machine : Machine} {underlying : Nat → Function} {computation : Computation}

/-- A flush takes part in batches. -/
theorem not_plain_flush {passed : BatchGroup → Prop} (group : BatchGroup) (function : Function) (window : Nat) :
    ¬ (flush group function window).body.Plain underlying passed := by
  unfold flush Computation.named
  split
  · exact fun hplain => Bool.noConfusion (hplain.2 ()).1
  · exact fun hplain => Bool.noConfusion (hplain.2 none).1

/-- Handling a fair effect leads to no flush, as long as no flush is passed on. -/
theorem Flushes.not_starts (hflushes : Flushes underlying computation) {act : Act}
    (hordinary : act.Ordinary underlying withheld) : ¬ act.Starts computation := by
  obtain ⟨group, window, rfl⟩ := hflushes
  have hunfair : ¬ (flush group (underlying group.definition) window).Fair underlying withheld := by
    rintro (hplain | ⟨other, time, hpassed, -⟩)
    · exact not_plain_flush group _ window hplain
    · exact hpassed
  intro hstarts
  cases act with
  | pushed other tag =>
      obtain rfl : other = flush group (underlying group.definition) window := hstarts
      rcases hordinary with hfair | ⟨batcher, time, operation, -, hsame⟩
      · exact hunfair hfair
      · have hname : "batch flush" = "batch" := Option.some.inj (congrArg Computation.name hsame)
        exact absurd hname (by decide)
  | forked effect =>
      obtain rfl : effect = .bare (flush group (underlying group.definition) window) := hstarts
      exact hunfair hordinary
  | _ => exact hstarts

/-- What launches a flush, and what an effect that is a flush can be. -/
theorem Launches.eq {effect : Effect} (hlaunches : Launches underlying effect) :
    ∃ computation, Flushes underlying computation ∧ (effect = .bare computation ∨ effect = .fork (.bare computation)) := by
  obtain ⟨group, window, rfl⟩ := hlaunches
  refine ⟨_, ⟨group, window, rfl⟩, ?_⟩
  unfold launch
  split
  · exact .inl rfl
  · exact .inr rfl

namespace Unintercepted

variable (unintercepted : Unintercepted machine)
include unintercepted

/-- The launch of a computation is handled by one act, which puts the computation to work if it starts one. -/
theorem launched_of_handleActs {effect : Effect} {other : Computation}
    (heffect : effect = .bare other ∨ effect = .fork (.bare other)) {run : Run} {seen rest : List Act} {act : Act}
    (hacts : machine.handleActs effect run = seen ++ act :: rest) (hstarts : act.Starts computation) :
    seen = [] ∧ Launched computation effect act := by
  have hsingle {single : Act} (hhandled : machine.handleActs effect run = [single]) : seen = [] ∧ act = single := by
    rw [hhandled] at hacts
    cases seen with
    | nil => exact ⟨rfl, (List.cons.inj hacts).1.symm⟩
    | cons head seen => simp at hacts
  rcases heffect with rfl | rfl
  · obtain ⟨rfl, rfl⟩ := hsingle (Machine.handleActs_bare unintercepted.execute other run)
    obtain rfl : other = computation := hstarts
    exact ⟨rfl, .here⟩
  · rcases Machine.handle_fork unintercepted.fork (.bare other) run with ⟨error, hrefused, -⟩ | ⟨hforked, -⟩
    · obtain ⟨rfl, rfl⟩ := hsingle hrefused
      exact hstarts.elim
    · obtain ⟨rfl, rfl⟩ := hsingle hforked
      obtain rfl : other = computation := Effect.bare.inj hstarts
      exact ⟨rfl, .apart⟩

end Unintercepted

namespace Setting

variable (setting : Setting machine underlying) (unintercepted : Unintercepted machine)
include setting unintercepted

/-- A step that puts a flush to work launches it. -/
theorem launched_of_stepActs (hflushes : Flushes underlying computation) {run : Run} (hfair : run.Fair underlying withheld)
    (hkept : ∀ body, run.stack.top.progress = .running body → run.stack.top.cancellation = .none)
    {seen rest : List Act} {act : Act} (hacts : machine.stepActs run = seen ++ act :: rest)
    (hstarts : act.Starts computation) : ∃ effect, seen = [.performed effect] ∧ Launched computation effect act := by
  have hordinary {effect : Effect} (heffect : effect.Fair underlying withheld) :
      machine.HandlesOnly run.stack.context (fun act => ¬ act.Starts computation) effect :=
    fun later _ act hmem => hflushes.not_starts (setting.ordinary_handleActs later heffect act hmem)
  have hquiet (act : Act) (hact : act.isQuiet = true) : ¬ act.Starts computation := by
    cases act <;> first | exact fun hstarts => hstarts | cases hact
  by_cases hlaunches : ∃ effect resume, run.stack.top.progress = .running (.perform effect resume) ∧
    Launches underlying effect
  · obtain ⟨effect, resume, hrunning, hlaunches⟩ := hlaunches
    obtain ⟨other, -, heffect⟩ := hlaunches.eq
    cases seen with
    | nil =>
        have hperformed : act = .performed effect := by
          rcases Machine.stepActs_of_perform hrunning (hkept _ hrunning) with hsteps | hsteps <;>
            exact (List.cons.inj (hacts.symm.trans hsteps)).1
        rw [hperformed] at hstarts
        exact hstarts.elim
    | cons head seen =>
        rcases Machine.stepActs_of_perform hrunning (hkept _ hrunning) with hsteps | hsteps
        · -- a cancellation is all that was noticed
          have hrest := (List.cons.inj (hacts.symm.trans hsteps)).2
          have hnoticed : act = .noticed := by
            have hmem : act ∈ [Act.noticed] := hrest ▸ by simp
            exact List.mem_singleton.1 hmem
          rw [hnoticed] at hstarts
          exact hstarts.elim
        · obtain ⟨rfl, hhandled⟩ := List.cons.inj (hacts.symm.trans hsteps)
          obtain ⟨rfl, hlaunched⟩ := unintercepted.launched_of_handleActs heffect hhandled.symm hstarts
          exact ⟨effect, rfl, hlaunched⟩
  · have hnone : ∀ act ∈ machine.stepActs run, ¬ act.Starts computation := by
      refine Machine.forall_mem_stepActs hquiet run (fun effect resume hrunning => ?_) fun frame hframe effect hmem => ?_
      · have hprogress := (hfair _ List.mem_cons_self).progress
        rw [hrunning] at hprogress
        cases hprogress with
        | perform heffect hresume =>
            rcases heffect with heffect | heffect
            · exact ⟨fun hstarts => hstarts, hordinary heffect⟩
            · exact absurd ⟨effect, resume, hrunning, heffect⟩ hlaunches
      · exact ⟨fun hstarts => hstarts, hordinary ((hfair frame hframe).defers effect hmem)⟩
    exact absurd hstarts (hnone act (by simp [hacts]))

end Setting

end Batch

/-- Where the processes of a system come from, and the flushes among their computations. -/
structure Batch.Lineage (machine : Machine) (underlying : Nat → Function) (first : Host) (descent : Descent) (trace : Trace)
    (host : Host) : Prop where
  origins : Origins machine first descent trace host
  provenance : ∀ task before act after computation, Flushes underlying computation →
    deeds trace task = before ++ act :: after → act.Starts computation →
    Provenance descent trace task computation before act

namespace Batch.Setting

variable {machine : Machine} {underlying : Nat → Function} {first : Host} {trace : Trace} {system : System}

/-- Every flush that is put to work was launched, or is what its task was forked with. -/
theorem lineage (setting : Setting machine underlying) (unintercepted : Unintercepted machine)
    (fresh : Fresh underlying first) (runs : Runs machine first trace system) :
    ∃ descent, Lineage machine underlying first descent trace system.parked := by
  suffices hwith : ∃ descent, Origins machine first descent trace system.parked ∧
      ∀ task before act after computation, Flushes underlying computation →
        deeds trace task = before ++ act :: after → act.Starts computation →
        Provenance descent trace task computation before act by
    obtain ⟨descent, origins, hprovenance⟩ := hwith
    exact ⟨descent, origins, hprovenance⟩
  refine runs.origins_with (Q := fun descent trace => ∀ task before act after computation, Flushes underlying computation →
    deeds trace task = before ++ act :: after → act.Starts computation →
      Provenance descent trace task computation before act) (fun _ _ _ _ _ _ _ hdeeds => by simp at hdeeds) ?_
  intro trace system task activity after own later descent runs hcurrent hadvances origins kept process before act rest
    computation hflushes hdeeds hstarts
  obtain ⟨doing, hdoing, -⟩ := runs.sound task activity hcurrent
  have hborn : task.index < system.host.activities.length := by
    rw [Host.activities, List.length_map]
    exact (List.getElem?_eq_some_iff.1 hdoing).1
  rw [Origins.deeds_step] at hdeeds
  rcases split_of_append hdeeds with ⟨rest, hearlier, -⟩ | ⟨seen, rfl, hown⟩
  · have hprocess : process.index < system.host.activities.length := by
      have hmem : (process, act) ∈ trace := mem_deeds_iff.1 (by simp [hearlier])
      exact origins.lt_of_mem hmem
    cases kept process before act rest computation hflushes hearlier hstarts with
    | launched before hlaunched => exact .launched before hlaunched
    | begun htrace hbirth =>
        refine .begun (by rw [htrace, List.append_assoc]; rfl) ?_
        rwa [Descent.birth_grow_of_lt hprocess]
  · by_cases hsame : process = task
    · subst hsame
      rw [if_pos rfl] at hown
      have hfair : activity.Fair underlying withheld := by
        have hactivity := System.activity?_current runs.sound hcurrent
        rw [System.activity?_eq_getElem?] at hactivity
        exact (setting.fair (.inr unintercepted) fresh runs).2 _ (List.mem_of_getElem? hactivity)
      have hordinary {effect : Effect} (heffect : effect.Fair underlying withheld) {run : Run}
          (hacts : machine.handleActs effect run = seen ++ act :: rest) : False :=
        hflushes.not_starts (setting.ordinary_handleActs run heffect act (by simp [hacts])) hstarts
      have hstep (stack : Stack) (hstack : activity.stack? = some stack)
          (hfair : ∀ frame ∈ stack.top :: stack.below, frame.Fair underlying withheld)
          (hacts : machine.stepActs { stack, host := system.host } = seen ++ act :: rest) :
          Provenance (descent.grow trace own system.host later) (trace ++ own.map fun act => (process, act)) process
            computation (deeds trace process ++ seen) act := by
        have hkept (body : Body) (hrunning : stack.top.progress = .running body) : stack.top.cancellation = .none := by
          have hdriven : system.driven? process = some stack := by
            rw [System.driven?, System.activity?_current runs.sound hcurrent]
            exact hstack
          exact runs.kept_of_running hdriven hrunning
        have hrun : Run.Fair underlying withheld { stack, host := system.host } := hfair
        obtain ⟨effect, rfl, hlaunched⟩ := setting.launched_of_stepActs unintercepted hflushes hrun hkept hacts hstarts
        exact .launched _ hlaunched
      cases hadvances with
      | begin context effect =>
          rcases hfair with hfair | ⟨other, hother, rfl⟩
          · exact (hordinary hfair hown).elim
          · obtain ⟨rfl, hlaunched⟩ := unintercepted.launched_of_handleActs (.inl rfl) hown hstarts
            cases hlaunched
            have hwaiting : (system.host.park process (.forked context (.bare computation))).activities[process.index]? =
                some (.forked context (.bare computation)) := by
              rw [system.host.getElem?_activities_park _ hborn, if_pos rfl]
            rcases origins.waiting process context _ hwaiting with hfirst | ⟨before, forker, after, htrace, hbirth⟩
            · obtain ⟨client, hclient, hactivity⟩ := List.mem_map.1 (List.mem_of_getElem? hfirst)
              obtain ⟨errand, herrand, -⟩ := fresh.clients client hclient
              rw [herrand] at hactivity
              cases hactivity
            · rw [origins.deeds_of_waiting hwaiting htrace hbirth]
              refine .begun (by rw [htrace, List.append_assoc]; rfl) ?_
              rwa [Descent.birth_grow_of_lt hborn]
      | submit context effect resume =>
          have hsubmission : (machine.submission effect).Fair underlying withheld := by
            unfold Machine.submission
            split <;> exact hfair.1
          exact (hordinary hsubmission hown).elim
      | step stack habove => exact hstep stack rfl hfair hown
      | runStep stack resume habove => exact hstep stack rfl hfair.1 hown
      | settle | runEnd | done | act | wait | sendOut | gather | «await» | report | rest => simp at hown
    · rw [if_neg hsame] at hown
      simp at hown

end Batch.Setting
end EffectMachine
