import EffectMachine.Proofs.Cancellation.Calls
import EffectMachine.Proofs.Cancellation.Natural
import EffectMachine.Proofs.Interleaving.Execution
import EffectMachine.Proofs.Protocol.Resumption

/-!
# Cancellation is safe

What a cancellation does to a forked stack, and what it does not.

* A stack takes note of its cancellation once (`History.noticed_once`).  `Halted` says what it does from then
  on: the computations that were on the stack make no strides any more, every effect that is handled was
  performed or started after, and what is pushed later is spared.
* `Concluded` is what a stack can end with: the mark of cancellation if it took note, and otherwise what it
  would have ended with if nobody could cancel it.
* `cancellation_safe` puts these together with what a call to cancel the task returns.
-/

namespace EffectMachine

/-! ## Taking note of a cancellation -/

/-- A stack is canceled by taking note of it, and by nothing else. -/
theorem Run.Does.canceled_iff {run next : Run} {act : Act} (hdoes : run.Does act next) :
    next.stack.canceled = true ↔ run.stack.canceled = true ∨ act = .noticed := by
  cases hdoes with
  | notice hcanceled hsignal => simp [Stack.markCanceled]
  | answer value =>
      rw [Run.stack_answerTop]
      simp [Stack.withTop]
  | fork effect hscheduled =>
      rw [Run.stack_answerTop]
      simp [Stack.withTop]
  | fail error =>
      rw [Run.stack_failTop]
      simp [Stack.withTop]
  | _ => simp [Run.push, Stack.push, Run.deferOnTop, Run.withTop, Stack.withTop, Machine.resumeTop]

section Histories

variable {machine : Machine} {context : Context} {signal : Option TaskId} {effect : Effect}
variable {acts seen later : List Act} {run : Run}

/-- A stack is canceled once it took note of it. -/
theorem Moment.canceled_iff (moment : Moment machine context signal effect acts run) :
    run.stack.canceled = true ↔ .noticed ∈ acts := by
  refine moment.invariant (P := fun acts run => run.stack.canceled = true ↔ .noticed ∈ acts) ?_ ?_ ?_
  · intro host
    simp
  · exact fun host kept => kept
  · intro acts run next act hdoes kept
    rw [hdoes.canceled_iff, kept, List.mem_append, List.mem_singleton, eq_comm (a := act)]

/-- A computation that makes a stride does so on the top frame, which is not the sentinel. -/
theorem Obeys.stride {more : List Act} {act : Act} {stages : List Stage} (obeys : Obeys acts stages)
    {before : List Act} (hacts : acts = before ++ act :: more) (hstride : act.isStride = true) :
    ∃ number top after, (Roll.after before).live.head? = some number ∧ 0 < number ∧ top.Does act after ∧
      Ceasing before number top := by
  obtain ⟨first, last, hfirst, hprotocol⟩ := obeys.split hacts
  cases hprotocol with
  | @top stage later _ hdoes stages =>
      obtain ⟨number, rest, hlive, hlength, hless⟩ := hfirst.live_eq
      have hhead : (Roll.after before).live.head? = some number := by simp [hlive]
      have hbelow := hless _ (List.getElem_mem (show 0 < rest.length by omega))
      exact ⟨number, stage, later, hhead, by omega, hdoes, hfirst.kept_top ceasing hhead⟩
  | push | drop | leave | «catch» | notice | baseDefer | baseAnswer | baseFail | baseFork => cases hstride

namespace History

/-- A stack takes note of its cancellation only once. -/
theorem noticed_once (history : History machine context signal effect acts run)
    (hacts : acts = seen ++ .noticed :: later) : .noticed ∉ seen ∧ .noticed ∉ later := by
  have hfirst : ∀ {seen later : List Act}, acts = seen ++ .noticed :: later → .noticed ∉ seen := by
    intro seen later hacts hmem
    obtain ⟨before, after, moment, hdoes, -⟩ := history.exists_does hacts
    have hcanceled := moment.canceled_iff.2 hmem
    cases hdoes with
    | notice hfree hsignal =>
        rw [hfree] at hcanceled
        cases hcanceled
  refine ⟨hfirst hacts, fun hmem => ?_⟩
  obtain ⟨between, rest, rfl⟩ := List.append_of_mem hmem
  have hagain : acts = (seen ++ .noticed :: between) ++ .noticed :: rest := by simpa using hacts
  exact hfirst hagain (by simp)

/-- A frame that was overtaken was on the stack when the stack took note of its cancellation. -/
theorem live_of_overtaken (history : History machine context signal effect acts run)
    (hacts : acts = seen ++ .noticed :: later) {before : List Act} (hbegins : before <+: later) {number : Nat}
    (hovertaken : Overtaken (seen ++ .noticed :: before) number) : number ∈ (Roll.after seen).live := by
  obtain ⟨other, between, hsame, hlive⟩ := hovertaken
  obtain ⟨hseen, hlater⟩ := history.noticed_once hacts
  have hbefore : .noticed ∉ before := fun hmem => hlater (hbegins.subset hmem)
  obtain ⟨rfl, -⟩ := (List.append_cons_inj_of_notMem hseen hbefore).1 hsame
  exact hlive

/-- Only effects that were deferred on a frame are started on it. -/
theorem recorded_of_started (history : History machine context signal effect acts run) {deferred : Effect}
    (hacts : acts = seen ++ .started deferred :: later) :
    ∃ number, (Roll.after seen).live.head? = some number ∧ deferred ∈ recorded seen number := by
  obtain ⟨before, after, moment, hdoes, -⟩ := history.exists_does hacts
  cases hdoes with
  | start _ defers hbelow hfinished hdefers =>
      have watched := moment.watched account
      have hhigh : 1 < (Roll.after seen).live.length := by
        rw [watched.tracks.length]
        exact Nat.succ_lt_succ (List.length_pos_iff.2 hbelow)
      have hpos := watched.tracks.sound.top_pos hhigh
      cases hlive : (Roll.after seen).live with
      | nil => simp [hlive] at hhigh
      | cons number rest =>
          rw [hlive] at hpos
          have hkept : Kept seen number before.stack.top := watched.kept_top (by rw [hlive]; rfl) hpos
          exact ⟨number, rfl, hkept.pending.mem_iff.2 (by simp [hdefers])⟩

/-- Only frames that were overtaken are given up. -/
theorem overtaken_of_givenUp (history : History machine context signal effect acts run)
    (hacts : acts = seen ++ .givenUp :: later) :
    ∃ number, (Roll.after seen).live.head? = some number ∧ Overtaken seen number := by
  obtain ⟨stages, obeys, -⟩ := history.stands
  obtain ⟨number, _, _, hhead, hpos, -⟩ := obeys.stride hacts rfl
  obtain ⟨before, after, moment, hdoes, -⟩ := history.exists_does hacts
  have hkept : Kept seen number before.stack.top := (moment.watched account).kept_top hhead hpos
  cases hdoes with
  | giveUp hfinished hdue => exact ⟨number, hhead, hkept.overtaken hdue⟩

/-- Every effect that is handled after a stack took note of its cancellation was performed or started after. -/
theorem prompted (history : History machine context signal effect acts run)
    (hacts : acts = seen ++ .noticed :: later) : Prompted false later := by
  induction history generalizing seen later with
  | begun host => exact .of_noticed (hacts ▸ machine.allows_handleActs effect _)
  | @stepped acts run history habove host ih =>
      obtain ⟨stages, -, stands⟩ := history.stands
      have allows := machine.allows_stepActs { run with host } fun _ => stands.kept_of_running
      rcases List.append_eq_append_iff.1 hacts with ⟨within, rfl, hwithin⟩ | ⟨earlier, hearlier, hrest⟩
      · exact .of_noticed (hwithin ▸ allows)
      · cases earlier with
        | nil =>
            have hsplit : machine.stepActs { run with host } = [] ++ .noticed :: later := hrest.symm
            exact .of_noticed (hsplit ▸ allows)
        | cons head earlier =>
            obtain ⟨rfl, rfl⟩ := List.cons.inj hrest
            -- No step begins in the middle of handling an effect.
            have hstep : Prompted false (machine.stepActs { run with host }) := by
              have hopening := Prompted.of_allows allows
              rwa [decide_eq_false (Mode.opening_ne_handling _)] at hopening
            exact (ih hearlier).append hstep

end History
end Histories

/-! ## What a canceled stack does -/

/-- What a stack does after these acts, by the last of which it took note of its cancellation. -/
structure Halted (seen later : List Act) : Prop where
  /-- Further cancellations are no matter to it. -/
  once : .noticed ∉ later
  /-- The computations that were on the stack make no strides any more, but for being given up. -/
  resting : ∀ before act after number, later = before ++ act :: after → number ∈ (Roll.after seen).live →
    (Roll.after (seen ++ .noticed :: before)).actor act = number → act.isStride = true → act = .givenUp
  /-- Every effect that is handled was performed or started since. -/
  prompted : Prompted false later
  /-- An effect that is started was deferred on its frame. -/
  recorded : ∀ before deferred after, later = before ++ .started deferred :: after →
    ∃ number, (Roll.after (seen ++ .noticed :: before)).live.head? = some number ∧
      deferred ∈ recorded (seen ++ .noticed :: before) number
  /-- Only frames that were on the stack are given up. -/
  spared : ∀ before after, later = before ++ .givenUp :: after →
    ∃ number ∈ (Roll.after seen).live, (Roll.after (seen ++ .noticed :: before)).live.head? = some number

/-- A stack that took note of its cancellation is halted from then on. -/
theorem History.halted {machine : Machine} {context : Context} {signal : Option TaskId} {effect : Effect}
    {acts seen later : List Act} {run : Run} (history : History machine context signal effect acts run)
    (hacts : acts = seen ++ .noticed :: later) : Halted seen later := by
  obtain ⟨stages, obeys, -⟩ := history.stands
  have hsplit : ∀ {before after : List Act} {act : Act}, later = before ++ act :: after →
      acts = (seen ++ .noticed :: before) ++ act :: after := by
    rintro before after act rfl
    simpa using hacts
  refine ⟨(history.noticed_once hacts).2, ?_, history.prompted hacts,
    fun before deferred after hlater => history.recorded_of_started (hsplit hlater), ?_⟩
  · intro before act after number hlater hlive hactor hstride
    obtain ⟨head, top, next, hhead, -, hdoes, hceasing⟩ := obeys.stride (hsplit hlater) hstride
    have hpushed : ∀ computation tag, act ≠ .pushed computation tag := by
      rintro computation tag rfl
      cases hstride
    obtain rfl : head = number := (Roll.actor_of_head hhead hpushed).symm.trans hactor
    have hrests := hceasing.rests (.overtaken ⟨seen, before, rfl, hlive⟩)
    cases hdoes with
    | giveUp => rfl
    | begin | resume | resumeWith | act | perform | complete => cases hrests
    | defer | start | answer | fail | fork | wait => cases hstride
  · intro before after hlater
    obtain ⟨number, hhead, hovertaken⟩ := history.overtaken_of_givenUp (hsplit hlater)
    exact ⟨number, history.live_of_overtaken hacts ⟨_, hlater.symm⟩ hovertaken, hhead⟩

/-! ## What a forked stack ends with -/

/-- What a forked stack ends with, having done these acts. -/
inductive Concluded (machine : Machine) (context : Context) (effect : Effect) (acts : List Act) : Outcome → Prop
  /-- It took note of its cancellation, and at most one failure of its cleanup is reported with that. -/
  | canceled {error : Error} (hnoticed : .noticed ∈ acts) (hcancellation : error.isCancellation = true)
      (hattached : error.attached.length ≤ 1) (hown : ∀ failure ∈ error.attached, failure.isCancellation = false) :
      Concluded machine context effect acts (.error error)
  /-- It took no note of a cancellation, and did what it would have done if nobody could cancel it. -/
  | natural {run : Run} (hquiet : .noticed ∉ acts) (history : History machine context none effect acts run)
      (hbelow : run.stack.below = []) : Concluded machine context effect acts run.stack.outcome

/-- What a canceled stack ends with. -/
theorem Stack.concluded_of_canceled {stack : Stack} (hcanceled : stack.canceled = true) :
    ∃ error, stack.outcome = .error error ∧ error.isCancellation = true ∧ error.attached.length ≤ 1 ∧
      ∀ failure ∈ error.attached, failure.isCancellation = false := by
  unfold outcome
  rw [if_pos hcanceled]
  split
  · rename_i error _
    split
    · exact ⟨_, rfl, rfl, by simp [Error.attached], by simp [Error.attached]⟩
    · rename_i hown
      refine ⟨_, rfl, rfl, by simp [Error.withErrors, Error.attached], ?_⟩
      simpa [Error.withErrors, Error.attached] using hown
  · exact ⟨_, rfl, rfl, by simp [Error.attached], by simp [Error.attached]⟩

/-- A forked stack ends with the mark of its cancellation, or else with what it ends with anyway. -/
theorem History.concluded {machine : Machine} {context : Context} {signal : Option TaskId} {effect : Effect}
    {acts : List Act} {run : Run} (history : History machine context signal effect acts run)
    (hbelow : run.stack.below = []) : Concluded machine context effect acts run.stack.outcome := by
  by_cases hnoticed : .noticed ∈ acts
  · obtain ⟨error, houtcome, hcancellation, hattached, hown⟩ :=
      Stack.concluded_of_canceled (history.moment.canceled_iff.2 hnoticed)
    rw [houtcome]
    exact .canceled hnoticed hcancellation hattached hown
  · have houtcome : (Recasting.unsignaled.run run).stack.outcome = run.stack.outcome := rfl
    have hnone : (Recasting.unsignaled.run run).stack.below = [] := List.map_eq_nil_iff.2 hbelow
    rw [← houtcome]
    exact .natural hnoticed (history.natural hnoticed) hnone

/-! ## The main statement -/

/-- A forked task is safe to cancel, having come so far by some moves. -/
structure SafeToCancel (machine : Machine) (context : Context) (task : TaskId) (effect : Effect) (more : Trace)
    (later : System) : Prop where
  /-- Once it took note of its cancellation it is halted. -/
  halted : ∀ seen after, deeds more task = seen ++ .noticed :: after → Halted seen after
  /-- What it ends with depends on whether it took note. -/
  concluded : ∀ outcome, later.host.outcome? task = some outcome →
    Concluded machine context effect (deeds more task) outcome
  /-- A call that cancels it goes on until it has settled, and returns what is left to report. -/
  calls : ∀ caller failed rest, later.Evaluates caller (Concurrent.cancelOne task failed rest) →
    ∀ further last, Proceeds machine later further last →
      Concurrent.Pending machine caller task failed rest later last ∨
        Concurrent.Returned machine caller task failed rest later last

/-- Cancellation is safe, whoever asks a forked task to cancel, how often and at whatever moment. -/
theorem cancellation_safe {machine : Machine} {first : Host} {trace more : Trace} {system later : System}
    {context : Context} {task : TaskId} {effect : Effect} (runs : Runs machine first trace system)
    (hforked : system.activity? task = some (.forked context effect))
    (proceeds : Proceeds machine system more later) : SafeToCancel machine context task effect more later := by
  have hsound := runs.sound
  constructor
  case halted =>
    intro seen after hdeeds
    obtain ⟨activity, -, career⟩ := proceeds.career hsound hforked
    rw [hdeeds] at career
    generalize hacts : seen ++ .noticed :: after = acts at career
    cases career with
    | waiting => simp at hacts
    | going history | done history hbelow => exact history.halted hacts.symm
  case concluded =>
    intro outcome houtcome
    obtain ⟨run, history, hbelow, rfl⟩ := proceeds.settled hsound hforked houtcome
    exact history.concluded hbelow
  case calls =>
    intro caller failed rest hcall further last hlast
    exact Concurrent.pending_or_returned hlast (proceeds.sound hsound) hcall

namespace CanceledEarly

/-- A task with a cleanup, and a client that is about to cancel it. -/
def host : Host :=
  let (task, host) := ({} : Host).spawn (.forked (.blank 0) OvertakenCleanup.main)
  (host.spawn (.client (.evaluate (.blank 0) (Concurrent.cancelOne task .fail (.ok .null))))).2

/-- What the client and then the task do. -/
def outcome : Trace × System :=
  (System.resume host ⟨1⟩).execute Machine.bare 12

end CanceledEarly

open CanceledEarly in
/-- A task that is canceled before its first step settles, and has been safe to cancel. -/
theorem cancellation_safe_early :
    (deeds outcome.1 ⟨0⟩).any Act.notices = true ∧
      outcome.2.host.isSettled ⟨0⟩ = true ∧
      SafeToCancel Machine.bare (.blank 0) ⟨0⟩ OvertakenCleanup.main outcome.1 outcome.2 := by
  have hnew : ∀ process ∈ host.processes, process.activity.stack? = none := by
    intro process hmem
    rcases List.mem_cons.1 hmem with rfl | hsecond
    · rfl
    · rw [List.mem_singleton.1 hsecond]
      rfl
  refine ⟨by decide, by decide, ?_⟩
  exact cancellation_safe (.start hnew) rfl ((Proceeds.move .start (.pick host ⟨1⟩)).execute 12)

end EffectMachine
