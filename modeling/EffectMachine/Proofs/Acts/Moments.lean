import EffectMachine.Proofs.Acts.Frames

/-!
# Moments of a history

A history goes from step to step.  What a stack is like in the middle of a step, after some of its acts and
before the others, is a moment of the history.  Every history is a moment, and so is all that comes before
a moment.
-/

namespace EffectMachine

/-- Some acts of a stack since it was given its first effect, and what it is like after them; the last step may
not be complete. -/
inductive Moment (machine : Machine) (context : Context) (signal : Option TaskId) (effect : Effect) :
    List Act → Run → Prop
  | opening {first more : List Act} {run : Run} (host : Host)
      (hacts : machine.handleActs effect { stack := { context, signal }, host } = first ++ more)
      (hfirst : Run.Chain { stack := { context, signal }, host } first run)
      (hmore : run.Chain more (machine.begin context signal effect host)) :
      Moment machine context signal effect first run
  | within {acts first more : List Act} {before run : Run}
      (history : History machine context signal effect acts before) (habove : before.stack.below ≠ [])
      (host : Host) (hacts : machine.stepActs { before with host } = first ++ more)
      (hfirst : Run.Chain { before with host } first run)
      (hmore : run.Chain more (machine.step { before with host }).run) :
      Moment machine context signal effect (acts ++ first) run

namespace Run

/-- A sequence of acts passes through a run after each of them. -/
theorem Chain.split {run final : Run} {acts first more : List Act} (chain : run.Chain acts final)
    (hacts : acts = first ++ more) : ∃ middle, run.Chain first middle ∧ middle.Chain more final := by
  induction chain generalizing first with
  | done run =>
      obtain ⟨rfl, rfl⟩ := List.append_eq_nil_iff.1 hacts.symm
      exact ⟨run, .done run, .done run⟩
  | quiet host hquiet _ ih =>
      obtain ⟨middle, hfirst, hmore⟩ := ih hacts
      exact ⟨middle, .quiet host hquiet hfirst, hmore⟩
  | @act run next act acts final hdoes rest ih =>
      cases first with
      | nil =>
          obtain rfl : act :: acts = more := hacts
          exact ⟨run, .done run, .act hdoes rest⟩
      | cons head first =>
          obtain ⟨rfl, hrest⟩ := List.cons.inj hacts
          obtain ⟨middle, hfirst, hmore⟩ := ih hrest
          exact ⟨middle, .act hdoes hfirst, hmore⟩

/-- A sequence of acts carries out each of them. -/
theorem Chain.split_act {run final : Run} {acts first more : List Act} {act : Act}
    (chain : run.Chain acts final) (hacts : acts = first ++ act :: more) :
    ∃ before after, run.Chain first before ∧ before.Does act after ∧ after.Chain more final := by
  obtain ⟨middle, hfirst, hrest⟩ := chain.split hacts
  clear chain hacts
  generalize hremaining : act :: more = remaining at hrest
  induction hrest with
  | done run => cases hremaining
  | quiet host hquiet _ ih =>
      have hjournal := hfirst.append (.journal host hquiet)
      rw [List.append_nil] at hjournal
      exact ih hjournal hremaining
  | act hdoes rest _ =>
      cases hremaining
      exact ⟨_, _, hfirst, hdoes, rest⟩

/-- Nothing becomes of a stack without an act. -/
theorem Chain.stack_eq {run final : Run} (chain : run.Chain [] final) : final.stack = run.stack := by
  generalize hnil : ([] : List Act) = acts at chain
  induction chain with
  | done run => rfl
  | quiet host hquiet _ ih => exact ih hnil
  | act hdoes _ _ => cases hnil

end Run

variable {machine : Machine} {context : Context} {signal : Option TaskId} {effect : Effect}
variable {acts more : List Act} {run : Run}

/-- What a stack is like between two steps is a moment. -/
theorem History.moment (history : History machine context signal effect acts run) :
    Moment machine context signal effect acts run := by
  cases history with
  | begun host => exact .opening host (List.append_nil _).symm (machine.handle_chain effect _) (.done _)
  | stepped history habove host =>
      exact .within history habove host (List.append_nil _).symm (machine.step_chain _) (.done _)

/-- What holds of a new stack on any host, does not depend on the host and is kept by every act holds at
every moment. -/
theorem Moment.invariant {P : List Act → Run → Prop} (hstart : ∀ host : Host, P [] { stack := { context, signal }, host })
    (hhost : ∀ {acts : List Act} {run : Run} (host : Host), P acts run → P acts { run with host })
    (hact : ∀ {acts : List Act} {run next : Run} {act : Act},
      run.Does act next → P acts run → P (acts ++ [act]) next)
    (moment : Moment machine context signal effect acts run) : P acts run := by
  cases moment with
  | opening host hacts hfirst _ => exact History.invariant_chain hhost hact hfirst (hstart host)
  | within history habove host hacts hfirst _ =>
      exact History.invariant_chain hhost hact hfirst (hhost host (history.invariant hstart hhost hact))

/-- A stack carried out each of its acts, at a moment of its history. -/
theorem History.exists_does (history : History machine context signal effect acts run)
    {first : List Act} {act : Act} (hacts : acts = first ++ act :: more) :
    ∃ before after, Moment machine context signal effect first before ∧ before.Does act after ∧
      Moment machine context signal effect (first ++ [act]) after := by
  induction history generalizing first more with
  | begun host =>
      obtain ⟨before, after, hfirst, hdoes, hrest⟩ := (machine.handle_chain effect _).split_act hacts
      refine ⟨before, after, .opening host hacts hfirst (.act hdoes hrest), hdoes, ?_⟩
      exact .opening host (by rw [hacts, List.append_cons]) (hfirst.append (.single hdoes)) hrest
  | @stepped acts run history habove host ih =>
      have hstep : ∀ within, machine.stepActs { run with host } = within ++ act :: more →
          ∃ before after, Moment machine context signal effect (acts ++ within) before ∧
            before.Does act after ∧
            Moment machine context signal effect ((acts ++ within) ++ [act]) after := by
        intro within hwithin
        obtain ⟨before, after, hfirst, hdoes, hrest⟩ := (machine.step_chain _).split_act hwithin
        refine ⟨before, after, .within history habove host hwithin hfirst (.act hdoes hrest), hdoes, ?_⟩
        rw [List.append_assoc]
        exact .within history habove host (by rw [hwithin, List.append_cons])
          (hfirst.append (.single hdoes)) hrest
      rcases List.append_eq_append_iff.1 hacts with ⟨within, rfl, hwithin⟩ | ⟨later, hearlier, hlater⟩
      · exact hstep within hwithin
      · cases later with
        | nil =>
            obtain rfl : acts = first := by simpa using hearlier
            simpa using hstep [] hlater.symm
        | cons head later =>
            obtain ⟨rfl, rfl⟩ := List.cons.inj hlater
            exact ih hearlier

/-- What a stack is like is what its last act made of it. -/
theorem History.exists_last (history : History machine context signal effect acts run) {first : List Act}
    {act : Act} (hacts : acts = first ++ [act]) :
    ∃ before after, Moment machine context signal effect first before ∧ before.Does act after ∧
      after.stack = run.stack := by
  induction history with
  | begun host =>
      obtain ⟨before, after, hfirst, hdoes, hrest⟩ := (machine.handle_chain effect _).split_act hacts
      exact ⟨before, after, .opening host hacts hfirst (.act hdoes hrest), hdoes, hrest.stack_eq.symm⟩
  | @stepped acts run history habove host ih =>
      have hchain := machine.step_chain { run with host }
      generalize hstep : machine.stepActs { run with host } = own at hacts hchain
      cases own using List.reverseRecOn with
      | nil =>
          rw [List.append_nil] at hacts
          obtain ⟨before, after, moment, hdoes, hsame⟩ := ih hacts
          exact ⟨before, after, moment, hdoes, hsame.trans hchain.stack_eq.symm⟩
      | append_singleton within last =>
          rw [← List.append_assoc] at hacts
          obtain ⟨rfl, hlast⟩ := List.append_inj' hacts rfl
          obtain rfl := List.singleton_inj.1 hlast
          obtain ⟨before, after, hfirst, hdoes, hrest⟩ := hchain.split_act rfl
          exact ⟨before, after, .within history habove host hstep hfirst (.act hdoes hrest), hdoes,
            hrest.stack_eq.symm⟩

/-- A watch is kept at every moment. -/
theorem Moment.watched (moment : Moment machine context signal effect acts run) (watch : Watch) :
    Watched watch acts run :=
  moment.invariant (fun _ => .initial watch rfl)
    (fun _ watched => ⟨watched.tracks.host _, watched.kept, watched.gone⟩) fun hdoes watched => watched.does hdoes

/-- What is watched is known of the top frame. -/
theorem Watched.kept_top {watch : Watch} (watched : Watched watch acts run) {number : Nat}
    (hhead : (Roll.after acts).live.head? = some number) (hpos : 0 < number) :
    watch.kept acts number run.stack.top := by
  obtain ⟨rest, hlive⟩ := List.head?_eq_some_iff.1 hhead
  have hkept := watched.kept
  rw [hlive] at hkept
  cases hkept with
  | cons htop _ => exact htop hpos

end EffectMachine
