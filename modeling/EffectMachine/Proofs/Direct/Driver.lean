import EffectMachine.Proofs.Direct.Evaluation

/-!
# Driving a stack among others

A stack that is never asked to cancel, driven until it is down to its sentinel.  Whenever it gives way or
has to wait, other processes change the host.

* `Direct.Setting.next` is one step, `Direct.Setting.settle` drives a stack for a number of steps at most.
* `Reaches` relates a moment to those that come after it; `Direct.Setting.settle_of_reaches` turns it into a result of
  the driver.
-/

namespace EffectMachine
namespace Direct

/-- A run, and how often other processes were let in. -/
structure Moment where
  run : Run
  turns : Nat

/-- Whether a stack has frames above its sentinel. -/
def Moment.Goes (moment : Moment) : Prop :=
  moment.run.stack.below ≠ []

/-- What a stack has settled with, and the host it has settled on. -/
def Moment.result? (moment : Moment) : Option (Outcome × Host) :=
  match moment.run.stack.below with
  | [] => some (moment.run.stack.outcome, moment.run.host)
  | _ :: _ => none

namespace Setting

/-- One step of a stack.  Other processes are let in when it gives way or has to wait. -/
def next (setting : Setting) (moment : Moment) : Moment :=
  match setting.machine.step moment.run with
  | .moved stack host => { run := { stack, host }, turns := moment.turns }
  | .gaveWay stack host | .waits stack host _ =>
    { run := { stack, host := setting.others moment.turns host }, turns := moment.turns + 1 }

/-- Drives a stack until it is down to its sentinel; nothing when that takes more steps than given. -/
def settle (setting : Setting) : Nat → Moment → Option (Outcome × Host)
  | 0, moment => moment.result?
  | steps + 1, moment =>
    match moment.run.stack.below with
    | [] => moment.result?
    | _ :: _ => settle setting steps (setting.next moment)

/-- A stack that is given its first effect. -/
def begin (setting : Setting) (effect : Effect) (host : Host) : Moment where
  run := setting.machine.begin setting.context none (setting.machine.submission effect) host
  turns := 0

end Setting

/-- Moments that a stack comes to. -/
inductive Reaches (setting : Setting) : Moment → Moment → Prop
  | refl (moment : Moment) : Reaches setting moment moment
  | step {moment final : Moment} (hgoes : moment.Goes) (rest : Reaches setting (setting.next moment) final) :
      Reaches setting moment final

namespace Reaches

variable {setting : Setting} {first second third : Moment}

theorem trans (hfirst : Reaches setting first second) (hsecond : Reaches setting second third) :
    Reaches setting first third := by
  induction hfirst with
  | refl moment => exact hsecond
  | step hgoes _ ih => exact .step hgoes (ih hsecond)

/-- One step. -/
theorem single (hgoes : first.Goes) (hnext : setting.next first = second) :
    Reaches setting first second :=
  .step hgoes (hnext ▸ .refl _)

end Reaches

namespace Setting

variable {setting : Setting} {moment final : Moment}

/-- A stack that is down to its sentinel has settled. -/
theorem settle_of_below (steps : Nat) (hbelow : moment.run.stack.below = []) :
    setting.settle steps moment = some (moment.run.stack.outcome, moment.run.host) := by
  have hresult : moment.result? = some (moment.run.stack.outcome, moment.run.host) := by
    rw [Moment.result?, hbelow]
  cases steps with
  | zero => exact hresult
  | succ steps =>
      rw [settle, hbelow]
      exact hresult

/-- A stack that goes on has not settled. -/
theorem settle_zero (hgoes : moment.Goes) : setting.settle 0 moment = none := by
  obtain ⟨parent, rest, hbelow⟩ := List.exists_cons_of_ne_nil hgoes
  rw [settle, Moment.result?, hbelow]

/-- A stack that goes on settles with what it settles with after a step. -/
theorem settle_succ (steps : Nat) (hgoes : moment.Goes) :
    setting.settle (steps + 1) moment = setting.settle steps (setting.next moment) := by
  obtain ⟨parent, rest, hbelow⟩ := List.exists_cons_of_ne_nil hgoes
  rw [settle, hbelow]

/-- What a stack comes to is what it settles with. -/
theorem settle_of_reaches (hreaches : Reaches setting moment final)
    (hbelow : final.run.stack.below = []) :
    ∃ steps, setting.settle steps moment = some (final.run.stack.outcome, final.run.host) := by
  induction hreaches with
  | refl moment => exact ⟨0, settle_of_below 0 hbelow⟩
  | step hgoes _ ih =>
      obtain ⟨steps, hsettle⟩ := ih hbelow
      exact ⟨steps + 1, (settle_succ steps hgoes).trans hsettle⟩

/-- More steps make no difference to a stack that has settled. -/
theorem settle_mono {steps more : Nat} {answer : Outcome × Host} (hmore : steps ≤ more)
    (hsettle : setting.settle steps moment = some answer) : setting.settle more moment = some answer := by
  induction steps generalizing moment more with
  | zero =>
      by_cases hbelow : moment.run.stack.below = []
      · rw [settle_of_below _ hbelow] at hsettle ⊢
        exact hsettle
      · rw [settle_zero hbelow] at hsettle
        cases hsettle
  | succ steps ih =>
      by_cases hbelow : moment.run.stack.below = []
      · rw [settle_of_below _ hbelow] at hsettle ⊢
        exact hsettle
      · obtain ⟨fewer, rfl⟩ : ∃ fewer, more = fewer + 1 := ⟨more - 1, by omega⟩
        rw [settle_succ _ hbelow] at hsettle ⊢
        exact ih (by omega) hsettle

/-- A stack settles in one way. -/
theorem settle_unique {steps more : Nat} {answer other : Outcome × Host}
    (hsettle : setting.settle steps moment = some answer)
    (hother : setting.settle more moment = some other) : answer = other := by
  have hanswer := settle_mono (Nat.le_max_left steps more) hsettle
  rw [settle_mono (Nat.le_max_right steps more) hother] at hanswer
  exact (Option.some.inj hanswer).symm

end Setting
end Direct
end EffectMachine
