import EffectMachine.Proofs.Interleaving.Basic

/-!
# Moves of a system

Whatever the order of moves, each of them is nothing but waiting, picking and passing of time, or a step of
one process.

* `Runs.sound` says that a running process has not ended, `Runs.later` that reports and cancellations last.
* `Moves.cases` is the inversion that invariants of systems go by.
-/

namespace EffectMachine

namespace Host

theorem grows_sendOut (host : Host) (errands : List Errand) :
    host.Grows (Machine.sendOut host errands).2 := by
  induction errands generalizing host with
  | nil => exact .refl host
  | cons errand rest ih => exact (Grows.spawn host rfl).trans (ih _)

/-- Whatever an announcement does, it is no matter of processes. -/
theorem like_announceAll (host : Host) (occasions : List Occasion) :
    (occasions.foldl announce host).Like host := by
  induction occasions generalizing host with
  | nil => exact .refl host
  | cons occasion rest ih => exact (ih _).trans ⟨rfl, rfl, rfl⟩

/-- A process that has not ended has no report. -/
theorem report?_eq_none {host : Host} {task : TaskId} {process : Process}
    (hprocess : host.processes[task.index]? = some process) (hreport : process.report? = none) :
    host.report? task = none := by
  rw [report?, hprocess]
  exact hreport

/-- Hosts that are alike know the same reports. -/
theorem Like.later {host other : Host} (hlike : other.Like host) : host.Later other :=
  .of_processes hlike.processes hlike.scheduled

end Host

namespace Machine

/-- What one step of a process can do, with its acts. -/
inductive Advances (machine : Machine) (task : TaskId) (host : Host) :
    Activity → List Act → Activity → Host → Prop
  | begin (context : Context) (effect : Effect) :
      Advances machine task host (.forked context effect)
        (machine.handleActs effect { stack := { context, signal := some task }, host })
        (.task (machine.begin context (some task) effect host).stack)
        (machine.begin context (some task) effect host).host
  | step (stack : Stack) (habove : stack.below ≠ []) :
      Advances machine task host (.task stack) (machine.stepActs { stack, host })
        (.task (machine.step { stack, host }).next) (machine.step { stack, host }).host
  | settle (stack : Stack) (hbelow : stack.below = []) :
      Advances machine task host (.task stack) [] (.ended (.single stack.outcome)) host
  | submit (context : Context) (effect : Effect) (resume : Outcome → Body) :
      Advances machine task host (.client (.evaluate context (.perform effect resume)))
        (machine.handleActs (machine.submission effect) { stack := { context, signal := none }, host })
        (.run (machine.begin context none (machine.submission effect) host).stack resume)
        (machine.begin context none (machine.submission effect) host).host
  | runStep (stack : Stack) (resume : Outcome → Body) (habove : stack.below ≠ []) :
      Advances machine task host (.run stack resume) (machine.stepActs { stack, host })
        (.run (machine.step { stack, host }).next resume) (machine.step { stack, host }).host
  | runEnd (stack : Stack) (resume : Outcome → Body) (hbelow : stack.below = []) :
      Advances machine task host (.run stack resume) []
        (.client (.evaluate stack.context (resume stack.outcome))) host
  | done (context : Context) (outcome : Outcome) :
      Advances machine task host (.client (.evaluate context (.done outcome))) []
        (.ended (.single outcome)) host
  | act (context : Context) (action : Action) (resume : action.Reply → Body) (reply : action.Reply)
      (later : Host) (hreact : host.react action = .reply later reply ∨
        host.react action = .giveWay later reply) :
      Advances machine task host (.client (.evaluate context (.act action resume))) []
        (.client (.evaluate context (resume reply))) later
  | wait (context : Context) (action : Action) (resume : action.Reply → Body) (later : Host)
      (occasions : List Occasion) (hreact : host.react action = .wait later occasions) :
      Advances machine task host (.client (.evaluate context (.act action resume))) []
        (.client (.evaluate context (.act action resume))) later
  | sendOut (errands : List Errand) :
      Advances machine task host (.client (.join errands)) []
        (.gathering [] (Machine.sendOut host errands).1) (Machine.sendOut host errands).2
  | gather (reports : List Report) (awaited : TaskId) (rest : List TaskId) (report : Report) :
      Advances machine task host (.gathering reports (awaited :: rest)) []
        (.gathering (reports ++ [report]) rest) host
  | await (reports : List Report) (awaited : List TaskId) :
      Advances machine task host (.gathering reports awaited) [] (.gathering reports awaited) host
  | report (reports : List Report) :
      Advances machine task host (.gathering reports []) [] (.ended (.join reports)) host
  | rest (report : Report) : Advances machine task host (.ended report) [] (.ended report) host

/-- Every step of a process is one of these. -/
theorem advances (machine : Machine) (task : TaskId) (activity : Activity) (host : Host) :
    machine.Advances task host activity (machine.advanceActs task activity host)
      (machine.advance task activity host).next (machine.advance task activity host).host := by
  cases activity with
  | forked context effect => exact .begin context effect
  | task stack =>
      cases hbelow : stack.below with
      | nil =>
          simp only [advance, advanceActs, hbelow, Stepped.next, Stepped.host]
          exact .settle stack hbelow
      | cons parent rest =>
          simp only [advance, advanceActs, hbelow, Stepped.next_map, Stepped.host_map]
          exact .step stack (by simp [hbelow])
  | client errand =>
      cases errand with
      | join errands => exact .sendOut errands
      | evaluate context body =>
          cases body with
          | done outcome => exact .done context outcome
          | perform effect resume => exact .submit context effect resume
          | act action resume =>
              cases hreact : host.react action with
              | reply later answer =>
                  simp only [advance, advanceActs, evaluate, hreact, Stepped.next, Stepped.host]
                  exact .act context action resume answer later (.inl hreact)
              | giveWay later answer =>
                  simp only [advance, advanceActs, evaluate, hreact, Stepped.next, Stepped.host]
                  exact .act context action resume answer later (.inr hreact)
              | wait later occasions =>
                  simp only [advance, advanceActs, evaluate, hreact, Stepped.next, Stepped.host]
                  exact .wait context action resume later occasions hreact
  | run stack resume =>
      cases hbelow : stack.below with
      | nil =>
          simp only [advance, advanceActs, hbelow, Stepped.next, Stepped.host]
          exact .runEnd stack resume hbelow
      | cons parent rest =>
          simp only [advance, advanceActs, hbelow, Stepped.next_map, Stepped.host_map]
          exact .runStep stack resume (by simp [hbelow])
  | gathering reports awaited =>
      cases awaited with
      | nil => exact .report reports
      | cons awaited rest =>
          cases hreport : host.report? awaited with
          | none =>
              simp only [advance, advanceActs, hreport, Stepped.next, Stepped.host]
              exact .await reports (awaited :: rest)
          | some report =>
              simp only [advance, advanceActs, hreport, Stepped.next, Stepped.host]
              exact .gather reports awaited rest report
  | ended report => exact .rest report

namespace Advances

variable {machine : Machine} {task : TaskId} {host later : Host} {activity next : Activity}
variable {acts : List Act}

/-- A host grows with every step of a process. -/
theorem grows (hadvances : machine.Advances task host activity acts next later) : host.Grows later := by
  have hstep (stack : Stack) : host.Grows (machine.step { stack, host }).host := by
    have hgrows := (machine.step_chain { stack, host }).grows
    rw [Stepped.run_eq] at hgrows
    exact hgrows
  have hbegin (context : Context) (signal : Option TaskId) (effect : Effect) :
      host.Grows (machine.begin context signal effect host).host :=
    (machine.handle_chain effect { stack := { context, signal }, host }).grows
  cases hadvances with
  | begin context effect => exact hbegin _ _ _
  | step stack habove => exact hstep stack
  | submit context effect resume => exact hbegin _ _ _
  | runStep stack resume habove => exact hstep stack
  | act context action resume reply later hreact =>
      have hgrows := host.grows_react action
      rcases hreact with hreact | hreact
      · rw [hreact] at hgrows
        exact hgrows
      · rw [hreact] at hgrows
        exact hgrows
  | wait context action resume later occasions hreact =>
      have hgrows := host.grows_react action
      rw [hreact] at hgrows
      exact hgrows
  | sendOut errands => exact host.grows_sendOut errands
  | _ => exact .refl host

end Advances
end Machine

namespace System

/-- The host after a step of the running process, as it would be if the process stopped then. -/
theorem parked_settleIn (task : TaskId) (stepped : Stepped Activity) :
    (settleIn task stepped).parked.Like (stepped.host.park task stepped.next) := by
  cases stepped <;> exact ⟨rfl, rfl, rfl⟩

/-- Picking a process changes nothing of what the processes are doing. -/
theorem parked_resume (host : Host) (task : TaskId) : (resume host task).parked.Like host := by
  unfold resume
  cases hprocess : host.processes[task.index]? with
  | none => exact .refl host
  | some process =>
      have hself := Host.park_self hprocess
      rw [Option.map_some, Option.getD_some]
      split
      · exact .refl host
      · exact hself

/-- Picking a process keeps the host. -/
theorem host_resume (host : Host) (task : TaskId) : (resume host task).host = host := by
  unfold resume
  split <;> rfl

/-- Picking a process and letting time pass change nothing of what the processes are doing. -/
theorem parked_idle {host : Host} {next : System} (hidle : idle host = some next) :
    next.parked.Like host := by
  unfold idle at hidle
  split at hidle
  · cases hidle
    exact (parked_resume _ _).trans ⟨rfl, rfl, rfl⟩
  · obtain ⟨⟨due, timers⟩, _, hnext⟩ := Option.map_eq_some_iff.1 hidle
    cases hnext
    show Host.Like (due.foldl (fun host timer => host.announce (.expired timer)) _) _
    rw [← List.foldl_map (f := Occasion.expired) (g := Host.announce)]
    exact (Host.like_announceAll _ _).trans ⟨rfl, rfl, rfl⟩

/-- Picking a process and letting time pass keep what is known of the processes. -/
theorem host_idle {host : Host} {next : System} (hidle : idle host = some next) : next.host.Like host := by
  unfold idle at hidle
  split at hidle
  · cases hidle
    rw [host_resume]
    exact ⟨rfl, rfl, rfl⟩
  · obtain ⟨⟨due, timers⟩, _, hnext⟩ := Option.map_eq_some_iff.1 hidle
    cases hnext
    show Host.Like (due.foldl (fun host timer => host.announce (.expired timer)) _) _
    rw [← List.foldl_map (f := Occasion.expired) (g := Host.announce)]
    exact (Host.like_announceAll _ _).trans ⟨rfl, rfl, rfl⟩

/-- A process that is picked has not ended. -/
theorem sound_resume (host : Host) (task : TaskId) : (resume host task).Sound := by
  intro running activity hcurrent
  unfold resume at hcurrent ⊢
  cases hprocess : host.processes[task.index]? with
  | none =>
      rw [hprocess] at hcurrent
      cases hcurrent
  | some process =>
      rw [hprocess] at hcurrent
      simp only [Option.map_some, Option.getD_some] at hcurrent ⊢
      have hreport : process.report? = none ∧ running = task := by
        unfold Process.report?
        revert hcurrent
        cases process.activity <;> intro hcurrent <;>
          first
            | exact ⟨rfl, congrArg Prod.fst (Option.some.inj hcurrent).symm⟩
            | cases hcurrent
      rw [hreport.2]
      exact ⟨process, by split <;> exact hprocess, hreport.1⟩

/-- A process that is picked has not ended. -/
theorem sound_idle {host : Host} {next : System} (hidle : idle host = some next) : next.Sound := by
  unfold idle at hidle
  split at hidle
  · cases hidle
    exact sound_resume _ _
  · obtain ⟨⟨due, timers⟩, _, hnext⟩ := Option.map_eq_some_iff.1 hidle
    cases hnext
    intro _ _ hnone
    cases hnone

variable {host : Host} {task : TaskId} {stepped : Stepped Activity} {process : Process}

/-- A process that goes on after a step has not ended as far as the others know. -/
theorem sound_settleIn (hgrows : host.Grows stepped.host)
    (hprocess : host.processes[task.index]? = some process) (hreport : process.report? = none) :
    (settleIn task stepped).Sound := by
  intro running activity hcurrent
  cases stepped with
  | moved next later =>
      cases hcurrent
      obtain ⟨after, hafter, hactivity, _⟩ := hgrows.kept hprocess
      exact ⟨after, hafter, (Host.report?_eq hactivity).trans hreport⟩
  | gaveWay next later => cases hcurrent
  | waits next later occasions => cases hcurrent

/-- A process that goes on after a step has no report yet. -/
theorem going (hgrows : host.Grows stepped.host) (hprocess : host.processes[task.index]? = some process)
    (hreport : process.report? = none) : stepped.host.report? task = none := by
  obtain ⟨after, hafter, hactivity, _⟩ := hgrows.kept hprocess
  exact Host.report?_eq_none hafter ((Host.report?_eq hactivity).trans hreport)

/-- Noting that a process goes on is no matter of reports and cancellations. -/
theorem later_settleIn (hgoing : stepped.host.report? task = none) :
    stepped.host.Later (settleIn task stepped).host := by
  cases stepped with
  | moved next later => exact .of_processes rfl rfl
  | gaveWay next later => exact (Host.Later.park later task next hgoing).trans (.of_processes rfl rfl)
  | waits next later occasions =>
      exact (Host.Later.park later task next hgoing).trans (.of_processes rfl rfl)

end System

namespace Moves

variable {machine : Machine} {system next : System} {acts : Trace}

/-- What a move can be: nothing but waiting, picking and passing of time, or a step of one process. -/
theorem cases (hmoves : Moves machine system acts next) (hsound : system.Sound) :
    (acts = [] ∧ next.parked.Like system.parked) ∨
    (∃ task activity, system.current = some (task, activity) ∧
      ∃ own after later, machine.Advances task system.host activity own after later ∧
        acts = own.map (fun act => (task, act)) ∧ later.Later next.host ∧
        next.parked.Like (later.park task after)) := by
  cases hmoves with
  | step hstep =>
      unfold System.step at hstep
      cases hcurrent : system.current with
      | none =>
          rw [hcurrent] at hstep
          have hparked : system.parked = system.host := by rw [System.parked, hcurrent]
          refine .inl ⟨by rw [System.acts, hcurrent], ?_⟩
          rw [hparked]
          exact System.parked_idle hstep
      | some running =>
          obtain ⟨task, activity⟩ := running
          rw [hcurrent] at hstep
          have hparked : system.parked = system.host.park task activity := by rw [System.parked, hcurrent]
          have hadvances := machine.advances task activity system.host
          obtain ⟨process, hprocess, hreport⟩ := hsound task activity hcurrent
          cases activity with
          | ended report =>
              cases hstep
              refine .inl ⟨by rw [System.acts, hcurrent]; rfl, ?_⟩
              rw [hparked]
              exact ⟨rfl, rfl, rfl⟩
          | _ =>
              cases hstep
              exact .inr ⟨task, _, rfl, _, _, _, hadvances, by rw [System.acts, hcurrent],
                System.later_settleIn (System.going hadvances.grows hprocess hreport),
                System.parked_settleIn _ _⟩
  | preempt host task activity => exact .inl ⟨rfl, .refl _⟩
  | pick host task => exact .inl ⟨rfl, System.parked_resume host task⟩
  | elapse host due timers hadvance => exact .inl ⟨rfl, ⟨rfl, rfl, rfl⟩⟩

/-- A running process has not ended as far as the others know, after any move. -/
theorem sound (hmoves : Moves machine system acts next) (hsound : system.Sound) : next.Sound := by
  cases hmoves with
  | step hstep =>
      unfold System.step at hstep
      cases hcurrent : system.current with
      | none =>
          rw [hcurrent] at hstep
          exact System.sound_idle hstep
      | some running =>
          obtain ⟨task, activity⟩ := running
          rw [hcurrent] at hstep
          have hgrows := (machine.advances task activity system.host).grows
          obtain ⟨process, hprocess, hreport⟩ := hsound task activity hcurrent
          cases activity with
          | ended report =>
              cases hstep
              intro _ _ hnone
              cases hnone
          | _ =>
              cases hstep
              exact System.sound_settleIn hgrows hprocess hreport
  | pick host task => exact System.sound_resume host task
  | _ =>
      intro _ _ hnone
      cases hnone

/-- Reports and cancellations last through every move. -/
theorem later (hmoves : Moves machine system acts next) (hsound : system.Sound) :
    system.host.Later next.host := by
  cases hmoves with
  | step hstep =>
      unfold System.step at hstep
      cases hcurrent : system.current with
      | none =>
          rw [hcurrent] at hstep
          exact (System.host_idle hstep).later
      | some running =>
          obtain ⟨task, activity⟩ := running
          rw [hcurrent] at hstep
          have hgrows := (machine.advances task activity system.host).grows
          obtain ⟨process, hprocess, hreport⟩ := hsound task activity hcurrent
          cases activity with
          | ended report =>
              cases hstep
              exact (Host.Later.park _ _ _ (Host.report?_eq_none hprocess hreport)).trans
                (.of_processes rfl rfl)
          | _ =>
              cases hstep
              exact hgrows.later.trans (System.later_settleIn (System.going hgrows hprocess hreport))
  | preempt host task activity =>
      obtain ⟨process, hprocess, hreport⟩ := hsound task activity rfl
      exact .park host task activity (Host.report?_eq_none hprocess hreport)
  | pick host task =>
      rw [System.host_resume]
      exact .refl host
  | elapse host due timers hadvance => exact .of_processes rfl rfl

end Moves

namespace Runs

variable {machine : Machine} {first : Host} {trace : Trace} {system : System}

/-- A run begins before anybody has begun. -/
theorem new (runs : Runs machine first trace system) : ∀ process ∈ first.processes, process.activity.stack? = none := by
  induction runs with
  | start hnew => exact hnew
  | move _ _ ih => exact ih

/-- A running process has not ended as far as the others know. -/
theorem sound (runs : Runs machine first trace system) : system.Sound := by
  induction runs with
  | start hnew =>
      intro _ _ hnone
      cases hnone
  | move _ hmoves ih => exact hmoves.sound ih

/-- Reports and cancellations last. -/
theorem later (runs : Runs machine first trace system) : first.Later system.host := by
  induction runs with
  | start hnew => exact .refl first
  | move runs hmoves ih => exact ih.trans (hmoves.later runs.sound)

end Runs
end EffectMachine
