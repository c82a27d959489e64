import EffectMachine.Proofs.Acts.History
import EffectMachine.Proofs.Recasting.Steps

/-!
# The natural course of a stack

A stack looks at its signal only to take note of a cancellation.  As long as it takes no note, it does what
the same stack without a signal does, step by step (`EffectMachine.History.natural`); so what it comes to is its natural
result.
-/

namespace EffectMachine

/-- Nobody can cancel. -/
def Recasting.unsignaled : Recasting :=
  { same with signal := fun _ => none }

namespace Recasting

/-- Handling an effect is no matter of the signal. -/
theorem handles_unsignaled (machine : Machine) (context : Context) (effect : Effect) :
    unsignaled.Handles machine machine context effect where
  invoke _ _ := (computation_of_same rfl _).symm
  handlers _ _ := List.forall₂_same.2 fun _ _ => ⟨rfl, (computation_of_same rfl _).symm⟩
  validate := rfl

theorem map_act_unsignaled (acts : List Act) : acts.map unsignaled.act = acts :=
  map_act_of_same rfl rfl acts

/-- As long as a stack takes no note of a cancellation, neither does it without a signal. -/
theorem notices_of_quiet {run : Run} (hquiet : .noticed ∉ Machine.noticeActs run) : unsignaled.Notices run := by
  have hnone : Machine.noticeActs (unsignaled.run run) = [] := by
    simp [Machine.noticeActs, Recasting.run, Recasting.stack, unsignaled]
  exact hnone.trans (Machine.observeCancellation_eq hquiet).1.symm

end Recasting

/-- A step that looks for a cancellation notices it then. -/
theorem Machine.noticeActs_subset_stepActs (machine : Machine) {run : Run} (hlooks : run.stack.top.looks = true) :
    noticeActs run ⊆ machine.stepActs run := by
  unfold Frame.looks at hlooks
  unfold stepActs
  cases hprogress : run.stack.top.progress with
  | running body =>
      cases body with
      | perform effect resume => exact fun act hmem => List.mem_cons_of_mem _ (List.mem_append_left _ hmem)
      | done outcome | act action resume => simp [hprogress] at hlooks
  | root | fresh | suspended | finished => exact List.subset_append_left _ _

namespace History

variable {machine : Machine} {context : Context} {signal : Option TaskId} {effect : Effect}
variable {acts : List Act} {run : Run}

/-- A stack that never took note of a cancellation did what it would have done if nobody could cancel it. -/
theorem natural (history : History machine context signal effect acts run) (hquiet : .noticed ∉ acts) :
    History machine context none effect acts (Recasting.unsignaled.run run) := by
  have hhandles := Recasting.handles_unsignaled machine
  induction history with
  | begun host =>
      have hbegun := @History.begun machine context none effect (Recasting.unsignaled.host host)
      obtain ⟨hafter, hacts⟩ := Recasting.handle { stack := { context, signal }, host } (hhandles context effect)
      rw [Recasting.map_act_unsignaled] at hacts
      unfold Machine.begin at hbegun ⊢
      rw [← hacts, ← hafter]
      exact hbegun
  | @stepped acts run history habove host ih =>
      have hearlier := ih fun hmem => hquiet (List.mem_append_left _ hmem)
      have hkept : (Recasting.unsignaled.run run).stack.below ≠ [] := fun hnone => habove (List.map_eq_nil_iff.1 hnone)
      have hnext := History.stepped hearlier hkept (Recasting.unsignaled.host host)
      obtain ⟨hafter, hacts⟩ := Recasting.step { run with host }
        (fun hlooks => Recasting.notices_of_quiet fun hmem =>
          hquiet (List.mem_append_right _ (machine.noticeActs_subset_stepActs hlooks hmem)))
        (fun _ _ effect _ => hhandles _ effect)
      rw [Recasting.map_act_unsignaled] at hacts
      rw [← hacts, ← Recasting.run_stepped, ← hafter]
      exact hnext

end History
end EffectMachine
