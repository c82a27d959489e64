import EffectMachine.Proofs.Acts.History
import EffectMachine.Proofs.Interleaving.Lifting

/-!
# Careers of processes

What one process goes through while the others move.

* `Moves.activity` says what a move is to one process: nothing, or a step of its own.
* `Career` is what becomes of a task that is forked: its acts are a history, and once it has ended its outcome
  is that of its stack.  `Proceeds.career` says that every forked task has such a career.
-/

namespace EffectMachine

namespace Proceeds

variable {machine : Machine} {system middle later : System} {trace more : Trace}

theorem sound (hproceeds : Proceeds machine system more later) (hsound : system.Sound) : later.Sound := by
  induction hproceeds with
  | start => exact hsound
  | move _ hmoves ih => exact hmoves.sound ih

/-- Reports and cancellations last. -/
theorem lasts (hproceeds : Proceeds machine system more later) (hsound : system.Sound) :
    system.host.Later later.host := by
  induction hproceeds with
  | start => exact .refl _
  | move before hmoves ih => exact ih.trans (hmoves.later (before.sound hsound))

end Proceeds

/-- What a process is doing is no matter of how the host is noted. -/
theorem System.activity?_eq {system : System} {host : Host} (hlike : system.parked.Like host) (task : TaskId) :
    system.activity? task = host.processes[task.index]?.map Process.activity := by
  rw [System.activity?, hlike.processes]

/-- To a process, a move is nothing, or a step of its own. -/
theorem Moves.activity {machine : Machine} {system next : System} {acts : Trace}
    (hmoves : Moves machine system acts next) (hsound : system.Sound) {task : TaskId} {activity : Activity}
    (hactivity : system.activity? task = some activity) :
    (deeds acts task = [] ∧ next.activity? task = some activity) ∨
    ∃ after later, machine.Advances task system.host activity (deeds acts task) after later ∧
      later.Later next.host ∧ next.activity? task = some after := by
  rcases hmoves.cases hsound with ⟨rfl, hlike⟩ |
    ⟨running, doing, hcurrent, own, after, later, hadvances, rfl, hlater, hlike⟩
  · refine .inl ⟨rfl, ?_⟩
    rw [System.activity?_eq hlike]
    exact hactivity
  · by_cases hown : running = task
    · subst hown
      rw [System.activity?_current hsound hcurrent] at hactivity
      obtain rfl := Option.some.inj hactivity
      obtain ⟨process, hprocess, _⟩ := hsound running doing hcurrent
      obtain ⟨_, hafter, _⟩ := hadvances.grows.kept hprocess
      refine .inr ⟨after, later, by rwa [deeds_own], hlater, ?_⟩
      rw [System.activity?_eq hlike]
      exact Host.activity_park_self after hafter
    · refine .inl ⟨deeds_other hown _, ?_⟩
      rw [System.activity?_other hcurrent hown] at hactivity
      obtain ⟨process, hprocess, rfl⟩ := Option.map_eq_some_iff.1 hactivity
      obtain ⟨kept, hkept, hsame, _⟩ := hadvances.grows.kept hprocess
      rw [System.activity?_eq hlike, Host.park_other after fun hindex => hown (congrArg TaskId.mk hindex), hkept]
      exact congrArg some hsame

/-- What becomes of a task that was forked with an effect. -/
inductive Career (machine : Machine) (context : Context) (task : TaskId) (effect : Effect) :
    List Act → Activity → Prop
  | waiting : Career machine context task effect [] (.forked context effect)
  | going {acts : List Act} {run : Run} (history : History machine context (some task) effect acts run) :
      Career machine context task effect acts (.task run.stack)
  | done {acts : List Act} {run : Run} (history : History machine context (some task) effect acts run)
      (hbelow : run.stack.below = []) : Career machine context task effect acts (.ended (.single run.stack.outcome))

variable {machine : Machine} {context : Context} {task : TaskId} {effect : Effect}

/-- A career goes on with every step of the task. -/
theorem Career.advances {acts own : List Act} {activity after : Activity} {host later : Host}
    (career : Career machine context task effect acts activity)
    (hadvances : machine.Advances task host activity own after later) :
    Career machine context task effect (acts ++ own) after := by
  cases career with
  | waiting =>
      cases hadvances
      exact .going (.begun host)
  | going history =>
      cases hadvances with
      | step stack habove =>
          have hnext := Career.going (.stepped history habove host)
          rw [Stepped.run_eq] at hnext
          exact hnext
      | settle stack hbelow =>
          rw [List.append_nil]
          exact .done history hbelow
  | done history hbelow =>
      cases hadvances
      rw [List.append_nil]
      exact .done history hbelow

/-- A task that was forked has a career from then on. -/
theorem Proceeds.career {system later : System} {more : Trace} (hproceeds : Proceeds machine system more later)
    (hsound : system.Sound) (hforked : system.activity? task = some (.forked context effect)) :
    ∃ activity, later.activity? task = some activity ∧
      Career machine context task effect (deeds more task) activity := by
  induction hproceeds with
  | start => exact ⟨_, hforked, .waiting⟩
  | @move trace acts middle next before hmoves ih =>
      obtain ⟨activity, hactivity, career⟩ := ih
      rw [deeds_append]
      rcases hmoves.activity (before.sound hsound) hactivity with ⟨hnone, hkept⟩ | ⟨after, _, hadvances, -, hafter⟩
      · rw [hnone, List.append_nil]
        exact ⟨activity, hkept, career⟩
      · exact ⟨after, hafter, career.advances hadvances⟩

/-- What a process ended with is known as its report, unless it is still running. -/
theorem System.activity?_of_report? {system : System} (hsound : system.Sound) {report : Report}
    (hreport : system.host.report? task = some report) : system.activity? task = some (.ended report) := by
  obtain ⟨process, hprocess, hended⟩ := Option.bind_eq_some_iff.1 hreport
  have hactivity : process.activity = .ended report := by
    unfold Process.report? at hended
    split at hended
    · rw [‹process.activity = _›, Option.some.inj hended]
    · cases hended
  cases hcurrent : system.current with
  | none => rw [System.activity?, System.parked, hcurrent, hprocess, Option.map_some, hactivity]
  | some running =>
      obtain ⟨other, doing⟩ := running
      have hother : other ≠ task := by
        rintro rfl
        obtain ⟨_, hsame, hgoing⟩ := hsound other doing hcurrent
        rw [hprocess] at hsame
        cases hsame
        rw [hended] at hgoing
        cases hgoing
      rw [System.activity?_other hcurrent hother, hprocess, Option.map_some, hactivity]

/-- A task that was forked and has settled has come to the end of its history. -/
theorem Proceeds.settled {system later : System} {more : Trace} (hproceeds : Proceeds machine system more later)
    (hsound : system.Sound) (hforked : system.activity? task = some (.forked context effect)) {outcome : Outcome}
    (houtcome : later.host.outcome? task = some outcome) :
    ∃ run, History machine context (some task) effect (deeds more task) run ∧ run.stack.below = [] ∧
      outcome = run.stack.outcome := by
  obtain ⟨report, hreport, hsingle⟩ := Option.bind_eq_some_iff.1 houtcome
  obtain ⟨activity, hactivity, career⟩ := hproceeds.career hsound hforked
  rw [System.activity?_of_report? (hproceeds.sound hsound) hreport] at hactivity
  obtain rfl := Option.some.inj hactivity
  generalize deeds more task = acts at career ⊢
  cases career with
  | done history hbelow => exact ⟨_, history, hbelow, (Option.some.inj hsingle).symm⟩

end EffectMachine
