import EffectMachine.Proofs.Interleaving.Forks

/-!
# Moments at which something is done

What a computation does by itself is all that is done in one step.  So there is a moment of the run at which it is done,
with what the system is like then, and the reply is the one of the host as it is then.

* `Machine.acted_of_stepActs` and `Machine.Advances.acted` say what a step is by which a computation does something by
  itself.
* `ActsAt` is a moment at which a process does something, on the way from one system to another.
* `Proceeds.actsAt` finds the moment of every act of this kind, and `exists_of_strides_cons` finds what a frame does among
  the acts of its process, with all it does later.
-/

namespace EffectMachine

variable {machine : Machine} {first : Host} {trace : Trace} {system final : System} {task : TaskId}

/-- A step by which the computation of the top frame does something by itself does nothing else. -/
theorem Machine.acted_of_stepActs {run : Run} {action : Action} {reply : action.Reply}
    (hacts : .acted action reply ∈ machine.stepActs run) :
    ∃ resume, run.stack.top.progress = .running (.act action resume) ∧ machine.stepActs run = [.acted action reply] ∧
      machine.step run = Machine.act action resume run ∧
      ∃ host, run.host.react action = .reply host reply ∨ run.host.react action = .giveWay host reply := by
  have hunwind (run : Run) : .acted action reply ∉ machine.unwindActs run :=
    fun hmem => Bool.false_ne_true (machine.unwinds_unwindActs run _ hmem)
  have hhandle (effect : Effect) (run : Run) : .acted action reply ∉ machine.handleActs effect run :=
    fun hmem => Bool.false_ne_true (machine.handles_handleActs effect run _ hmem)
  have hnotice (run : Run) : .acted action reply ∉ noticeActs run := by
    unfold noticeActs
    split <;> simp
  unfold stepActs at hacts ⊢
  unfold step
  split at hacts
  · rename_i outcome _
    cases outcome <;> simp [completeActs, hunwind] at hacts
  · unfold suspendActs at hacts
    simp only [List.cons_append, List.mem_cons, List.mem_append, reduceCtorEq, false_or] at hacts
    rcases hacts with hmem | hmem
    · exact absurd hmem (hnotice _)
    · split at hmem
      · cases hmem
      · exact absurd hmem (hhandle _ _)
  · rename_i other resume hrunning
    simp only [hrunning]
    unfold actActs at hacts ⊢
    cases hreact : run.host.react other with
    | reply host answer =>
        rw [hreact] at hacts
        cases List.mem_singleton.1 hacts
        exact ⟨resume, rfl, rfl, rfl, host, .inl hreact⟩
    | giveWay host answer =>
        rw [hreact] at hacts
        cases List.mem_singleton.1 hacts
        exact ⟨resume, rfl, rfl, rfl, host, .inr hreact⟩
    | wait host occasions =>
        rw [hreact] at hacts
        simp at hacts
  · unfold turnActs at hacts
    simp only [List.mem_append] at hacts
    rcases hacts with hmem | hmem
    · exact absurd hmem (hnotice _)
    · split at hmem
      · exact absurd hmem (hunwind _)
      · split at hmem
        · simp [hunwind] at hmem
        · split at hmem <;> simp [hunwind] at hmem

namespace Machine.Advances

variable {host later : Host} {activity after : Activity} {own : List Act}

/-- A step of a process by which a computation does something by itself does nothing else. -/
theorem acted (hadvances : machine.Advances task host activity own after later) {action : Action} {reply : action.Reply}
    (hacted : .acted action reply ∈ own) :
    own = [.acted action reply] ∧
      (∃ stack resume, activity.stack? = some stack ∧ stack.top.progress = .running (.act action resume)) ∧
      (host.react action = .reply later reply ∨ host.react action = .giveWay later reply) := by
  have hbegun (effect : Effect) (run : Run) : .acted action reply ∉ machine.handleActs effect run :=
    fun hmem => Bool.false_ne_true (machine.handles_handleActs effect run _ hmem)
  have hstep (stack : Stack) (hmem : .acted action reply ∈ machine.stepActs { stack, host }) :
      machine.stepActs { stack, host } = [.acted action reply] ∧
        (∃ resume, stack.top.progress = .running (.act action resume)) ∧
        (host.react action = .reply (machine.step { stack, host }).host reply ∨
          host.react action = .giveWay (machine.step { stack, host }).host reply) := by
    obtain ⟨resume, hrunning, honly, hstepped, result, hreact⟩ := Machine.acted_of_stepActs hmem
    refine ⟨honly, ⟨resume, hrunning⟩, ?_⟩
    rw [hstepped, Machine.act]
    rcases hreact with hreact | hreact <;> simp only at hreact <;> simp only [hreact]
    · exact .inl rfl
    · exact .inr rfl
  cases hadvances with
  | begin context effect => exact absurd hacted (hbegun effect _)
  | submit context effect resume => exact absurd hacted (hbegun _ _)
  | step stack habove =>
      obtain ⟨honly, ⟨resume, hrunning⟩, hreact⟩ := hstep stack hacted
      exact ⟨honly, ⟨stack, resume, rfl, hrunning⟩, hreact⟩
  | runStep stack next habove =>
      obtain ⟨honly, ⟨resume, hrunning⟩, hreact⟩ := hstep stack hacted
      exact ⟨honly, ⟨stack, resume, rfl, hrunning⟩, hreact⟩
  | _ => cases hacted

/-- What a computation does by itself is the first thing that is done in a step. -/
theorem acted_of_split (hadvances : machine.Advances task host activity own after later) {action : Action}
    {reply : action.Reply} {earlier rest : List Act} (hacts : own = earlier ++ .acted action reply :: rest) :
    earlier = [] ∧ (host.react action = .reply later reply ∨ host.react action = .giveWay later reply) := by
  obtain ⟨honly, -, hreact⟩ := hadvances.acted (hacts ▸ List.mem_append_right earlier List.mem_cons_self)
  have hlength := congrArg List.length (hacts.symm.trans honly)
  simp only [List.length_append, List.length_cons, List.length_nil] at hlength
  exact ⟨List.length_eq_zero_iff.1 (by omega), hreact⟩

end Machine.Advances

/-- A process does something on the way from one system to another: all that is done is done before it, by it, or after
it. -/
structure ActsAt (machine : Machine) (system : System) (trace : Trace) (final : System) (task : TaskId) (act : Act)
    (before : Trace) (seen : System) (after : Trace) : Prop where
  /-- Until then the system comes to be as it is seen. -/
  comes : Proceeds machine system before seen
  goesOn : Proceeds machine seen ((task, act) :: after) final
  trace_eq : trace = before ++ (task, act) :: after

/-- What a process does by itself it does at some moment, and the reply is the one of the host as it is then. -/
theorem Proceeds.actsAt (proceeds : Proceeds machine system trace final) (hsound : system.Sound) {before after : Trace}
    {action : Action} {reply : action.Reply} (htrace : trace = before ++ (task, .acted action reply) :: after) :
    ∃ seen, ActsAt machine system trace final task (.acted action reply) before seen after ∧
      ∃ host, seen.host.react action = .reply host reply ∨ seen.host.react action = .giveWay host reply := by
  induction proceeds generalizing after with
  | start => simp at htrace
  | @move trace acts middle next proceeds hmoves ih =>
      rcases split_of_append htrace with ⟨rest, hearlier, rfl⟩ | ⟨own, rfl, rfl⟩
      · obtain ⟨seen, hseen, hreact⟩ := ih hearlier
        exact ⟨seen, ⟨hseen.comes, .move hseen.goesOn hmoves, htrace⟩, hreact⟩
      · rcases hmoves.cases (proceeds.sound hsound) with ⟨hnone, -⟩ | ⟨running, activity, -, acts, _, host, hadvances, hacts, -⟩
        · simp at hnone
        · -- the act is all that is done in its step
          obtain ⟨before, rest, rfl, rfl, hrest⟩ := List.map_eq_append_iff.1 hacts.symm
          obtain ⟨act, after, rfl, hact, rfl⟩ := List.map_eq_cons_iff.1 hrest
          cases hact
          obtain ⟨rfl, hreact⟩ := hadvances.acted_of_split rfl
          refine ⟨middle, ⟨by simpa using proceeds, .move .start hmoves, htrace⟩, host, hreact⟩

/-- What stands in the strides of a frame stands in the deeds of its process, with all that the frame does later behind
it. -/
theorem exists_of_strides_cons {acts : List Act} {number : Nat} {earlier later : List Act} {act : Act}
    (hstrides : strides (life acts number) = earlier ++ act :: later) :
    ∃ before after, acts = before ++ act :: after ∧ later ⊆ after := by
  obtain ⟨before, after, rfl, hactor, hbefore⟩ := exists_of_strides hstrides
  refine ⟨before, after, rfl, ?_⟩
  have hstride : act.isStride = true :=
    (mem_strides.1 (hstrides ▸ List.mem_append_right earlier List.mem_cons_self)).2
  obtain ⟨rest, hrest, hsublist⟩ := life_append (before ++ [act]) after number
  rw [List.append_cons, hrest, life_concat, if_pos hactor, strides_append, strides_append, hbefore,
    strides_singleton hstride, List.append_assoc] at hstrides
  obtain rfl : strides rest = later := by simpa using hstrides
  exact fun other hmem => hsublist.subset (mem_strides.1 hmem).1

/-- A frame that has done something has been pushed before. -/
theorem Runs.pushed_of_prefix (runs : Runs machine first trace system) {number : Nat} {computation : Computation}
    {tag : Option HandlerTag} (hpushed : .pushed computation tag ∈ life (deeds trace task) number) {acts : List Act}
    (more : List Act) (hacts : deeds trace task = acts ++ more) (hlived : life acts number ≠ []) :
    .pushed computation tag ∈ life acts number := by
  obtain ⟨later, _, hlife, -⟩ := runs.life_eq hpushed
  obtain ⟨further, hfurther⟩ := life_prefix acts more number
  rw [← hacts, hlife] at hfurther
  obtain ⟨head, rest, hcons⟩ := List.exists_cons_of_ne_nil hlived
  rw [hcons] at hfurther ⊢
  rw [(List.cons.inj hfurther).1]
  exact List.mem_cons_self

end EffectMachine
