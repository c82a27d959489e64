import EffectMachine.Proofs.Interleaving.Endings
import EffectMachine.Proofs.Protocol.Resumption
import EffectMachine.Proofs.Unwinding.Order

/-!
# Deferred effects are conserved

Every effect that is deferred on a frame is started once, and handled as soon as it is started.  This does not hold of the
sentinel, which never finishes: what is deferred on it is never started.

* `Effect.deferral?` is the effect that an effect defers when no frame has been pushed yet.
* `Conserved` puts together what becomes of all effects deferred on a stack, and `conserved_of_settled` is the main
  statement.
* `lost_of_deferring` is a run whose only effect is deferred on the sentinel.
-/

namespace EffectMachine

/-- The effect that is deferred in place of an effect, if that is a matter of the core rules. -/
def Effect.deferral? : Effect → Option Effect
  | .defer effect => some effect
  | .start effect => effect.deferral?
  | _ => none

/-- What becomes of the effects that are deferred while a stack runs an effect. -/
structure Conserved (machine : Machine) (effect : Effect) (acts : List Act) : Prop where
  /-- An effect that is started is handled at once. -/
  served : HandlesStarted machine acts
  /-- Each frame has started what was deferred on it, as often as it was deferred. -/
  started : ∀ number, 0 < number → (recorded acts number).Perm (started acts number)
  /-- The sentinel starts nothing. -/
  unstarted : EffectMachine.started acts 0 = []
  /-- Nothing is deferred on the sentinel unless the stack was given the deferring as its only effect. -/
  lost : recorded acts 0 = [] ∨ ∃ deferred, acts = [.deferred deferred] ∧ effect.deferral? = some deferred

/-! ## What the sentinel is told -/

namespace Prompted

variable {prompted : Bool} {seen later : List Act} {act : Act}

/-- Unless a frame is discarded in between, an act of handling an effect comes right after the one that prompted it. -/
theorem exists_prompt (hprompted : Prompted prompted (seen ++ act :: later)) (hhandles : act.handles = true)
    (hkept : .dropped ∉ seen) : seen = [] ∨ ∃ earlier last, seen = earlier ++ [last] ∧ last.prompts false = true := by
  refine (hprompted.herald hhandles).imp And.left fun ⟨earlier, last, hseen, hlast⟩ => ⟨earlier, last, hseen, ?_⟩
  cases last with
  | dropped => exact absurd (hseen ▸ by simp) hkept
  | _ => exact hlast

end Prompted

namespace Machine

/-- What is deferred while no frame has been pushed is what the effect defers. -/
theorem Dispatches.deferral {machine : Machine} {effect deferred : Effect} {first : Nat} {run : Run} {act : Act}
    (dispatches : machine.Dispatches effect first run act) (hbelow : run.stack.below = [])
    (htag : run.stack.top.tag = none) (hdeferred : act = .deferred deferred) : effect.deferral? = some deferred := by
  have huntagged {run : Run} {effect : Effect} {position : Nat} (htag : run.stack.top.tag = none) :
      delegation run effect ≠ .ok position := by
    simp [delegation, htag]
  induction dispatches with
  | defer =>
      cases hdeferred
      rfl
  | start _ ih => exact ih hbelow htag hdeferred
  | terminated hterminated =>
      -- there is no frame but the sentinel to discard
      unfold Run.terminateTop at hterminated
      rw [hbelow] at hterminated
      cases hterminated
  | next hposition | replaced hposition => exact absurd hposition (huntagged htag)
  | _ => cases hdeferred

/-- Handling an effect does nothing more once an effect is deferred. -/
theorem eq_nil_of_handleActs {machine : Machine} {effect deferred : Effect} {run : Run} {after : List Act}
    (hacts : machine.handleActs effect run = .deferred deferred :: after) : after = [] := by
  have allows := machine.allows_handleActs effect run
  have hhandles := machine.handles_handleActs effect run
  rw [hacts] at allows hhandles
  obtain ⟨mode, hmode, allows⟩ := allows
  obtain rfl : mode = .busy := by simpa [Mode.next] using hmode.symm
  cases after with
  | nil => rfl
  | cons act after =>
      have hact := hhandles act (by simp)
      have hnone : Mode.busy.next act = none := by
        cases act <;> first | rfl | cases hact
      obtain ⟨later, hlater, -⟩ := allows
      rw [hnone] at hlater
      cases hlater

end Machine

/-- Effects are performed and started above the sentinel. -/
theorem Obeys.above_of_prompts {acts earlier later : List Act} {act : Act} {stages : List Stage}
    (obeys : Obeys acts stages) (hacts : acts = earlier ++ act :: later) (hprompts : act.prompts false = true) :
    (Roll.after (earlier ++ [act])).live.headD 0 ≠ 0 := by
  obtain ⟨first, last, hfirst, hprotocol⟩ := obeys.split hacts
  cases hprotocol with
  | top hdoes stages =>
      obtain ⟨number, rest, hlive, hlength, hless⟩ := hfirst.live_eq
      have hbelow := hless _ (List.getElem_mem (show 0 < rest.length by omega))
      have hroll : (Roll.after (earlier ++ [act])).live = number :: rest := by
        rw [Roll.after_concat]
        cases hdoes <;> exact hlive
      rw [hroll]
      exact Nat.ne_of_gt (Nat.lt_of_le_of_lt (Nat.zero_le _) hbelow)
  | push | drop | leave | «catch» | notice | baseDefer | baseAnswer | baseFail | baseFork => cases hprompts

section Histories

variable {machine : Machine} {context : Context} {signal : Option TaskId} {effect : Effect}
variable {acts after : List Act} {run : Run}

/-- Whatever a stack does in handling an effect goes back to the effect it was given, or to one that was performed or
started since. -/
theorem History.prompted_true (history : History machine context signal effect acts run) : Prompted true acts := by
  induction history with
  | begun host => exact .of_allows (machine.allows_handleActs effect _)
  | @stepped acts run history habove host ih =>
      obtain ⟨stages, -, stands⟩ := history.stands
      have allows := machine.allows_stepActs { run with host } fun _ => stands.kept_of_running
      have hstep := Prompted.of_allows allows
      rw [decide_eq_false (Mode.opening_ne_handling _)] at hstep
      exact ih.append hstep

/-- A stack that defers an effect before it does anything else does nothing else. -/
theorem History.deferral (history : History machine context signal effect acts run) {deferred : Effect}
    (hacts : acts = .deferred deferred :: after) : after = [] ∧ effect.deferral? = some deferred := by
  induction history generalizing after with
  | begun host =>
      refine ⟨Machine.eq_nil_of_handleActs hacts, ?_⟩
      have hmem := hacts ▸ (List.mem_cons_self : Act.deferred deferred ∈ Act.deferred deferred :: after)
      rcases Machine.dispatches_of_mem_handleActs hmem with ⟨error, hact⟩ | ⟨later, dispatches⟩
      · cases hact
      · exact dispatches.deferral rfl rfl rfl
  | @stepped acts run history habove host ih =>
      have hlow : ∀ seen : List Act, acts = seen → (Roll.after seen).live ≠ [0] := by
        rintro seen rfl hlive
        have hlength := history.tracks.length
        rw [hlive] at hlength
        exact habove (List.eq_nil_of_length_eq_zero (by simpa using hlength.symm))
      cases acts with
      | nil => exact absurd rfl (hlow [] rfl)
      | cons head seen =>
          obtain ⟨rfl, hseen⟩ := List.cons.inj hacts
          obtain ⟨rfl, -⟩ := ih rfl
          exact absurd rfl (hlow [.deferred deferred] rfl)

/-- The sentinel never starts an effect. -/
theorem History.started_sentinel (history : History machine context signal effect acts run) : started acts 0 = [] := by
  refine List.filterMap_eq_nil_iff.2 fun act hmem => ?_
  cases act with
  | started deferred =>
      obtain ⟨before, later, hacts, hactor⟩ := exists_of_mem_life hmem
      obtain ⟨earlier, next, moment, hdoes, -⟩ := history.exists_does hacts
      have tracks := (moment.watched account).tracks
      cases hdoes with
      | start _ defers hbelow hfinished hdefers =>
          have habove := List.length_pos_iff.2 hbelow
          have hpos := tracks.sound.top_pos (by rw [tracks.length]; omega)
          exact absurd hactor (Nat.ne_of_gt hpos)
  | _ => rfl

/-- Unless frames are discarded, an effect is deferred on the sentinel only if nothing else is ever done. -/
theorem History.recorded_sentinel (history : History machine context signal effect acts run)
    (hkept : .dropped ∉ acts) :
    recorded acts 0 = [] ∨ ∃ deferred, acts = [.deferred deferred] ∧ effect.deferral? = some deferred := by
  refine or_iff_not_imp_left.2 fun hrecorded => ?_
  obtain ⟨deferred, hmem⟩ := List.exists_mem_of_ne_nil _ hrecorded
  obtain ⟨act, hact, hsome⟩ := List.mem_filterMap.1 hmem
  cases act with
  | deferred effect =>
      obtain rfl := Option.some.inj hsome
      obtain ⟨before, later, hacts, hactor⟩ := exists_of_mem_life hact
      have hprompted := history.prompted_true
      rw [hacts] at hprompted
      have hfirst : before = [] := by
        refine (hprompted.exists_prompt rfl fun h => hkept (hacts ▸ List.mem_append_left _ h)).resolve_right ?_
        rintro ⟨earlier, last, rfl, hlast⟩
        obtain ⟨stages, obeys, -⟩ := history.stands
        exact obeys.above_of_prompts (hacts.trans (List.append_assoc _ _ _)) hlast hactor
      subst hfirst
      obtain ⟨rfl, hdeferral⟩ := history.deferral hacts
      exact ⟨_, hacts, hdeferral⟩
  | _ => cases hsome

end Histories

/-! ## The main statement -/

/-- Deferred effects are conserved.  Whatever a stack runs, once it is down to its sentinel every effect that was deferred
on a frame has been started, once, as long as no frame was discarded; and an effect that was deferred on the sentinel
never is, which happens only to a stack that is given the deferring as its only effect. -/
theorem conserved_of_settled {machine : Machine} {context : Context} {signal : Option TaskId} {effect : Effect}
    {acts : List Act} {run : Run} (history : History machine context signal effect acts run)
    (hsettled : run.stack.below = []) (hkept : .dropped ∉ acts) : Conserved machine effect acts := by
  refine ⟨history.handlesStarted, fun number hpos => ?_, history.started_sentinel, history.recorded_sentinel hkept⟩
  have watched := history.watched account
  rcases Nat.lt_or_ge number (Roll.after acts).next with hnext | hunborn
  · have settled : Settled acts number :=
      watched.gone number hpos hnext (watched.tracks.not_mem_live hsettled hpos)
    exact settled.books.resolve_left fun hdropped => hkept (mem_of_mem_life hdropped)
  · have hnone := watched.tracks.unborn number hunborn
    simp [recorded, started, hnone]

open Deferring in
/-- What is deferred by a computation is started, also if that defers another effect. -/
theorem conserved_of_nested :
    nestedDeeds.2.stack.below = [] ∧ Conserved Machine.bare nested nestedDeeds.1 := by
  exact ⟨settled_nested, conserved_of_settled (History.settle Machine.bare (.blank 0) nested {} 20) settled_nested
    (Act.not_mem_of_any uncut_nested rfl)⟩

/-- A stack that is only given the deferring of a computation settles with a success, and never runs the computation. -/
theorem lost_of_deferring (computation : Computation) (context : Context) (host : Host) :
    ((Machine.bare.settle context (.start (.defer (.bare computation))) host 0).1 = [.deferred (.bare computation)]) ∧
      (Machine.bare.settle context (.start (.defer (.bare computation))) host 0).2.stack.below = [] ∧
      (Machine.bare.settle context (.start (.defer (.bare computation))) host 0).2.stack.outcome = .ok .null :=
  ⟨rfl, rfl, rfl⟩

end EffectMachine
