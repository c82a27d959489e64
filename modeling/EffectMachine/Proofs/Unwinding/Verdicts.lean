import EffectMachine.Proofs.Acts.Moments
import EffectMachine.Proofs.Protocol.Conformance
import EffectMachine.Proofs.Protocol.Posts

/-!
# What finished frames deliver

The outcome of a computation stays the outcome of its frame while the frame runs what was deferred on it.  In an
uncanceled run there are two ways to change it: a deferred effect fails, which turns a success into that
failure, and the frame above, which services a deferred effect, recovers the error.

* `Fails` says that a deferred effect of a frame failed, `Recovered` that its error was taken.
* `Verdict` is what the outcome of a computation can come to in this way.
* `handsDown_of_left` is the main statement: what a frame hands down is such a verdict.

A frame that is discarded by a terminal effect hands nothing down, also if it had failed
(`not_all_failures_delivered`).
-/

namespace EffectMachine

/-- The computation of a frame has ended by itself. -/
def Completed (acts : List Act) (number : Nat) : Prop :=
  ∃ own, .completed own ∈ life acts number

/-- Frames recover errors only while their own computation goes on, as far as it is about the error of a frame or
about what it takes itself. -/
def RecoversInTime (acts : List Act) (number : Nat) : Prop :=
  ∀ before error after top, acts = before ++ .caught error :: after →
    (Roll.after before).live.head? = some top → top = number ∨ Beneath before number → ¬ Completed before top

/-- A deferred effect of a frame failed with an error: it was refused, or the frame that serviced it left with
the error. -/
inductive Fails (acts : List Act) (number : Nat) (error : Error) : Prop
  | refused {before after : List Act} (hacts : acts = before ++ .failed error :: after)
      (hhead : (Roll.after before).live.head? = some number) (hcompleted : Completed before number)
  | left {before after : List Act} {stages : List Stage} (hacts : acts = before ++ .left :: after)
      (hbeneath : Beneath before number) (hcompleted : Completed before number)
      (obeys : Obeys before (.ended (.error error) :: stages))

/-- The frame directly above a frame took its error, and its own computation was going on. -/
def Recovered (acts : List Act) (number : Nat) (error : Error) : Prop :=
  ∃ before after top rest, acts = before ++ .caught error :: after ∧
    (Roll.after before).live = top :: number :: rest ∧ ¬ Completed before top

/-- What the outcome of a computation comes to while its frame runs what was deferred on it. -/
inductive Verdict (acts : List Act) (number : Nat) (own : Outcome) : Outcome → Prop
  | kept : Verdict acts number own own
  | failed {value : Value} {error : Error} (verdict : Verdict acts number own (.ok value))
      (hfails : Fails acts number error) : Verdict acts number own (.error error)
  | recovered {error : Error} (verdict : Verdict acts number own (.error error))
      (hrecovered : Recovered acts number error) : Verdict acts number own (.ok .null)

section Concat

variable {acts : List Act} {number : Nat}

theorem RecoversInTime.of_concat {act : Act} (hrecovers : RecoversInTime (acts ++ [act]) number) :
    RecoversInTime acts number := by
  rintro before error after top rfl
  exact hrecovers before error (after ++ [act]) top (by simp)

theorem Fails.concat {error : Error} (act : Act) (hfails : Fails acts number error) :
    Fails (acts ++ [act]) number error := by
  cases hfails with
  | @refused before after hacts hhead hcompleted =>
      have hlonger : acts ++ [act] = before ++ .failed error :: (after ++ [act]) := by simp [hacts]
      exact .refused hlonger hhead hcompleted
  | @left before after stages hacts hbeneath hcompleted obeys =>
      have hlonger : acts ++ [act] = before ++ .left :: (after ++ [act]) := by simp [hacts]
      exact .left hlonger hbeneath hcompleted obeys

theorem Recovered.concat {error : Error} (act : Act) (hrecovered : Recovered acts number error) :
    Recovered (acts ++ [act]) number error := by
  obtain ⟨before, after, top, rest, rfl, hlive, hgoing⟩ := hrecovered
  exact ⟨before, after ++ [act], top, rest, by simp, hlive, hgoing⟩

theorem Verdict.concat {own outcome : Outcome} (act : Act) (verdict : Verdict acts number own outcome) :
    Verdict (acts ++ [act]) number own outcome := by
  induction verdict with
  | kept => exact .kept
  | failed _ hfails ih => exact .failed ih (hfails.concat act)
  | recovered _ hrecovered ih => exact .recovered ih (hrecovered.concat act)

end Concat

namespace Verdict

variable {acts : List Act} {number : Nat} {outcome : Outcome}

/-- The error of a computation stays, unless it is recovered. -/
theorem of_error {error : Error} (verdict : Verdict acts number (.error error) outcome) :
    outcome = .error error ∨ Recovered acts number error := by
  induction verdict with
  | kept => exact .inl rfl
  | failed _ _ ih => exact ih.elim (fun hsame => nomatch hsame) .inr
  | recovered _ hrecovered ih =>
      rcases ih with hsame | hearlier
      · cases hsame
        exact .inr hrecovered
      · exact .inr hearlier

/-- The value of a computation stays, unless a deferred effect fails. -/
theorem of_ok {value : Value} (verdict : Verdict acts number (.ok value) outcome) :
    outcome = .ok value ∨ ∃ error, Fails acts number error := by
  induction verdict with
  | kept => exact .inl rfl
  | failed _ hfails _ => exact .inr ⟨_, hfails⟩
  | recovered _ _ ih => exact ih.elim (fun hsame => nomatch hsame) .inr

/-- A frame that has ended with a verdict is told an outcome, which counts only if it is a failure under a
success. -/
theorem told {own now outcome : Outcome} (act : Act) (verdict : Verdict acts number own now)
    (hfails : ∀ error, outcome = .error error → Fails (acts ++ [act]) number error) :
    ∃ later, (Stage.ended now).told outcome = .ended later ∧ Verdict (acts ++ [act]) number own later := by
  have hlater := verdict.concat act
  cases now with
  | error error => exact ⟨_, rfl, hlater⟩
  | ok value =>
      cases outcome with
      | ok other => exact ⟨_, rfl, hlater⟩
      | error error => exact ⟨_, rfl, .failed hlater (hfails error rfl)⟩

end Verdict

/-! ## Following verdicts -/

/-- What is known of a frame on the stack of an uncanceled run. -/
def Judged (acts : List Act) (number : Nat) : Stage → Prop
  | .ended outcome => ∃ own, .completed own ∈ life acts number ∧ Verdict acts number own outcome
  | .doomed _ => False
  | .fresh | .running | .asking | .answered _ => True

namespace Judged

variable {acts : List Act} {act : Act} {number : Nat} {stage : Stage}

/-- An act that changes nothing about a frame leaves it as it was judged. -/
theorem concat (act : Act) (judged : Judged acts number stage) : Judged (acts ++ [act]) number stage := by
  cases stage with
  | ended outcome =>
      obtain ⟨own, hcompleted, verdict⟩ := judged
      exact ⟨own, mem_life_append _ hcompleted, verdict.concat act⟩
  | doomed begun => exact judged
  | fresh | running | asking | answered own => trivial

/-- A frame that waits is told an outcome. -/
theorem tell {outcome : Outcome} (judged : Judged acts number stage) (hwaits : stage.Waits)
    (hfails : ∀ error, outcome = .error error → Completed acts number → Fails (acts ++ [act]) number error) :
    Judged (acts ++ [act]) number (stage.told outcome) := by
  cases stage with
  | fresh | running | answered own => cases hwaits
  | asking => trivial
  | doomed begun => exact judged
  | ended now =>
      obtain ⟨own, hcompleted, verdict⟩ := judged
      obtain ⟨later, hlater, hverdict⟩ := verdict.told act fun error herror =>
        hfails error herror ⟨own, hcompleted⟩
      rw [hlater]
      exact ⟨own, mem_life_append _ hcompleted, hverdict⟩

end Judged

/-- Follows what frames have ended with, as long as nothing is canceled. -/
def judging : StageWatch where
  kept := fun acts number stage => .noticed ∉ acts → RecoversInTime acts number → Judged acts number stage
  fresh := fun _ _ _ _ _ _ => trivial
  own := by
    intro acts act number stage after hhead hdoes kept hquiet hrecovers
    have judged := kept (fun hmem => hquiet (List.mem_append_left _ hmem)) hrecovers.of_concat
    cases hdoes with
    | defer | start => exact judged.concat _
    | answer hwaits | fork hwaits => exact judged.tell hwaits fun _ herror => nomatch herror
    | fail hwaits error =>
        refine judged.tell hwaits fun other herror hcompleted => ?_
        cases herror
        have hlast : acts ++ [.failed error] = acts ++ .failed error :: [] := rfl
        exact .refused hlast hhead hcompleted
    | begin | resume | resumeWith | act | wait | perform => trivial
    | complete outcome =>
        refine ⟨outcome, ?_, .kept⟩
        rw [life_of_head hhead (by simp)]
        simp
    | giveUp => exact judged.elim
  take := by
    intro acts number stage error hhead hwaits kept hquiet hrecovers
    have judged := kept (fun hmem => hquiet (List.mem_append_left _ hmem)) hrecovers.of_concat
    cases stage with
    | fresh | running | answered own => cases hwaits
    | asking => trivial
    | doomed begun => exact judged.elim
    | ended outcome =>
        obtain ⟨own, hcompleted, -⟩ := judged
        exact absurd ⟨own, hcompleted⟩ (hrecovers acts error [] number rfl hhead (.inl rfl))
  rob := by
    intro acts number error hbeneath kept hquiet hrecovers
    obtain ⟨own, hcompleted, verdict⟩ := kept (fun hmem => hquiet (List.mem_append_left _ hmem)) hrecovers.of_concat
    obtain ⟨top, rest, hlive⟩ := hbeneath
    have hgoing := hrecovers acts error [] top rfl (by simp [hlive]) (.inr ⟨top, rest, hlive⟩)
    exact ⟨own, mem_life_append _ hcompleted,
      .recovered (verdict.concat _) ⟨acts, [], top, rest, rfl, hlive, hgoing⟩⟩
  receive := by
    intro acts number stage outcome stages hbeneath obeys hwaits kept hquiet hrecovers
    have judged := kept (fun hmem => hquiet (List.mem_append_left _ hmem)) hrecovers.of_concat
    refine judged.tell hwaits fun error herror hcompleted => ?_
    rw [herror] at obeys
    have hlast : acts ++ [.left] = acts ++ .left :: [] := rfl
    exact .left hlast hbeneath hcompleted obeys
  mark := fun _ _ _ hquiet _ => absurd (List.mem_append_right _ (List.mem_singleton.2 rfl)) hquiet
  stay := by
    intro acts act number stage hlive hother hnotice hbeneath kept hquiet hrecovers
    exact (kept (fun hmem => hquiet (List.mem_append_left _ hmem)) hrecovers.of_concat).concat act

/-! ## The main statement -/

/-- A frame whose computation has ended with an outcome hands down what it came to. -/
structure HandsDown (acts : List Act) (number : Nat) (own : Outcome) (run next : Run) : Prop where
  completed : .completed own ∈ life acts number
  /-- The frame below takes over the outcome. -/
  delivered : ∃ parent rest, run.stack.below = parent :: rest ∧ next.stack.top = parent.absorb run.stack.top.result
  verdict : Verdict acts number own run.stack.top.result
  /-- An error is handed down as it is, unless the frame above recovered it. -/
  ofError : ∀ error, own = .error error → run.stack.top.result = .error error ∨ Recovered acts number error
  /-- A value is handed down as it is, unless a deferred effect failed. -/
  ofOk : ∀ value, own = .ok value → run.stack.top.result = .ok value ∨ ∃ error, Fails acts number error

/-- The outcome of a finished frame is authoritative.  In an uncanceled run, and as long as errors are recovered only
by frames whose computation goes on, every frame that leaves hands down what its computation ended with; but
for an error that was recovered by the frame above, and for a value that was followed by the failure of a
deferred effect. -/
theorem handsDown_of_left {machine : Machine} {context : Context} {signal : Option TaskId} {effect : Effect}
    {acts : List Act} {run next : Run} {number : Nat} (moment : Moment machine context signal effect acts run)
    (hleaves : run.Does .left next) (hhead : (Roll.after acts).live.head? = some number) (hquiet : .noticed ∉ acts)
    (hrecovers : RecoversInTime acts number) : ∃ own, HandsDown acts number own run next := by
  obtain ⟨stages, obeys, stands⟩ := moment.stands
  cases hleaves with
  | leave parent rest hbelow hfinished hdefers =>
      have hframes : run.frames = run.stack.top :: parent :: rest := by rw [Run.frames, hbelow]
      rw [hframes] at stands
      obtain ⟨stage, others, rfl, hagrees, -⟩ := stands.exists_above
      obtain rfl := hagrees.eq_ended hfinished
      obtain ⟨own, hcompleted, verdict⟩ := obeys.kept_top judging hhead hquiet hrecovers
      refine ⟨own, hcompleted, ⟨parent, rest, hbelow, rfl⟩, verdict, ?_, ?_⟩
      · rintro error rfl
        exact verdict.of_error
      · rintro value rfl
        exact verdict.of_ok

/-! ## Sample runs -/

namespace Deferring

def boom : Error :=
  .failed ⟨0, .message "boom"⟩

/-- A computation that defers an effect and ends. -/
def main (deferred : Effect) (outcome : Outcome) : Effect :=
  .bare ⟨some "main", .andThen (.defer deferred) fun _ => .done outcome⟩

/-- What it does on a host without other processes. -/
def deeds (deferred : Effect) (outcome : Outcome) : List Act × Run :=
  Machine.bare.settle (.blank 0) (main deferred outcome) {} 12

end Deferring

open Deferring in
/-- A value that is followed by the failure of a deferred computation is not handed down. -/
theorem handsDown_after_failure :
    ∃ run next own, HandsDown ((deeds (.bare (.failing boom)) (.ok .null)).1.take 11) 1 own run next := by
  have hquiet : ((deeds (.bare (.failing boom)) (.ok .null)).1.take 11).any (fun act => act.notices || act.catches) =
      false := by
    decide
  have hsplit : (deeds (.bare (.failing boom)) (.ok .null)).1 =
      (deeds (.bare (.failing boom)) (.ok .null)).1.take 11 ++ .left :: [] := rfl
  have history := History.settle Machine.bare (.blank 0) (main (.bare (.failing boom)) (.ok .null)) {} 12
  obtain ⟨run, next, moment, hleaves, -⟩ := history.exists_does hsplit
  have hhead : (Roll.after ((deeds (.bare (.failing boom)) (.ok .null)).1.take 11)).live.head? = some 1 := rfl
  have hrecovers : RecoversInTime ((deeds (.bare (.failing boom)) (.ok .null)).1.take 11) 1 := by
    intro before taken after top hacts
    have hmem : .caught taken ∈ (deeds (.bare (.failing boom)) (.ok .null)).1.take 11 := hacts ▸ by simp
    exact absurd hmem (Act.not_mem_of_any hquiet rfl)
  obtain ⟨own, hdown⟩ :=
    handsDown_of_left moment hleaves hhead (Act.not_mem_of_any hquiet rfl) hrecovers
  exact ⟨run, next, own, hdown⟩

open Deferring in
/-- A frame that is discarded by its own cleanup hands down nothing, even if its computation has failed. -/
theorem not_all_failures_delivered :
    ¬ ∀ (machine : Machine) (context : Context) (effect : Effect) (acts : List Act) (run : Run) (error : Error),
      History machine context none effect acts run → run.stack.below = [] → (∀ taken, .caught taken ∉ acts) →
      .completed (.error error) ∈ life acts 1 → run.stack.outcome = .error error := by
  intro hall
  have huncaught : (deeds (.terminal (.bare (.ready (.int 7)))) (.error boom)).1.any Act.catches = false := by decide
  have hlife : (life (deeds (.terminal (.bare (.ready (.int 7)))) (.error boom)).1 1)[5]? =
    some (.completed (.error boom)) := rfl
  have hended := hall Machine.bare (.blank 0) _ _ _ boom
    (History.settle Machine.bare (.blank 0) (main (.terminal (.bare (.ready (.int 7)))) (.error boom)) {} 12) rfl
    (fun _ => Act.not_mem_of_any huncaught rfl) (List.mem_of_getElem? hlife)
  have hvalue : (deeds (.terminal (.bare (.ready (.int 7)))) (.error boom)).2.stack.outcome = .ok (.int 7) := rfl
  have hsame := hvalue.symm.trans hended
  cases hsame

end EffectMachine
