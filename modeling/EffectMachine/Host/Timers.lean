import EffectMachine.Program.Action

/-!
# Timers

The virtual clock and the timers set on it.  Time stands still while anything can run; then `Timers.advance?` jumps to
the earliest timer and lets all timers due by then run out, in the order they were started.  Main statements:
`Timers.now_le_of_advance?`, time never runs backwards, and `Timers.lt_of_mem_armed_advance?`, a jump leaves only
timers that are due later.
-/

namespace EffectMachine

/-- The clock and its timers. -/
structure Timers where
  /-- The time, in milliseconds. -/
  now : Nat := 0
  /-- How many timers were started. -/
  started : Nat := 0
  /-- Timers that have not run out, with the time they are due, in the order they were started. -/
  armed : List (TimerId × Nat) := []
  /-- Timers that have run out and were not yet noticed. -/
  expired : List TimerId := []

namespace Timers

/-- Starts a timer. -/
def arm (timers : Timers) (delay : Nat) : TimerId × Timers :=
  (⟨timers.started⟩,
    { timers with
      started := timers.started + 1
      armed := timers.armed ++ [(⟨timers.started⟩, timers.now + delay)] })

/-- Forgets timers. -/
def disarm (timers : Timers) (ids : List TimerId) : Timers :=
  { timers with
    armed := timers.armed.filter fun timer => !ids.contains timer.1
    expired := timers.expired.filter fun timer => !ids.contains timer }

/-- Whether a timer has run out. -/
def hasExpired (timers : Timers) (id : TimerId) : Bool :=
  timers.expired.contains id

/-- The time of the earliest timer. -/
def earliest? (timers : Timers) : Option Nat :=
  (timers.armed.map Prod.snd).min?

/-- Jumps to the earliest timer and returns the timers that run out then. -/
def advance? (timers : Timers) : Option (List TimerId × Timers) :=
  timers.earliest?.map fun time =>
    let due := (timers.armed.filter fun timer => timer.2 ≤ time).map Prod.fst
    (due,
      { timers with
        now := max timers.now time
        armed := timers.armed.filter fun timer => time < timer.2
        expired := timers.expired ++ due })

/-- A new timer is due when its delay has passed. -/
theorem armed_arm (timers : Timers) (delay : Nat) :
    (timers.arm delay).2.armed =
      timers.armed ++ [((timers.arm delay).1, timers.now + delay)] := rfl

/-- Time never runs backwards. -/
theorem now_le_of_advance? {timers later : Timers} {due : List TimerId}
    (advanced : timers.advance? = some (due, later)) : timers.now ≤ later.now := by
  unfold advance? at advanced
  cases h : timers.earliest? with
  | none => simp [h] at advanced
  | some time =>
    simp only [h, Option.map_some, Option.some.injEq, Prod.mk.injEq] at advanced
    rw [← advanced.2]
    exact Nat.le_max_left _ _

/-- When a jump is over, every timer that is left is due later. -/
theorem lt_of_mem_armed_advance? {timers later : Timers} {due : List TimerId} {timer : TimerId × Nat}
    (advanced : timers.advance? = some (due, later)) (member : timer ∈ later.armed) :
    ∃ time, timers.earliest? = some time ∧ time < timer.2 := by
  unfold advance? at advanced
  cases h : timers.earliest? with
  | none => simp [h] at advanced
  | some time =>
    simp only [h, Option.map_some, Option.some.injEq, Prod.mk.injEq] at advanced
    rw [← advanced.2] at member
    have kept := (List.mem_filter.1 member).2
    exact ⟨time, rfl, by simpa using kept⟩

end Timers
end EffectMachine
