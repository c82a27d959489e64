import EffectMachine.Proofs.Interleaving.Forks
import EffectMachine.Proofs.Unwinding.Order

/-!
# Answers

A computation that performs an effect is resumed with what the frame that services the effect ended with, if that frame
had nothing deferred on it.

* `Timely` says of some acts that frames leave as soon as they can, and that effects are handled as soon as they are
  performed; every process is timely.
* `Serves` says that a frame stands directly above another one that waits for it, and `Serves.step` is what an act makes
  of that.
* `Runs.answered` is the main statement, and `Runs.not_deferring` tells when nothing is deferred on a frame.
-/

namespace EffectMachine

/-! ## What comes next -/

/-- Frames leave, or start what was deferred on them, as soon as their computations have ended; and above the sentinel
effects are handled as soon as they are performed or started. -/
structure Timely (acts : List Act) : Prop where
  leaves : ∀ before own act after, acts = before ++ .completed own :: act :: after →
    act = .left ∨ ∃ effect, act = .started effect
  heralded : ∀ before act after, acts = before ++ act :: after → act.handles = true →
    (Roll.after before).live.headD 0 ≠ 0 →
      ∃ earlier last, before = earlier ++ [last] ∧ last.prompts true = true

/-- What comes first is timely. -/
theorem Timely.left {acts more : List Act} (timely : Timely (acts ++ more)) : Timely acts where
  leaves := by
    rintro before own act after rfl
    exact timely.leaves before own act (after ++ more) (by simp)
  heralded := by
    rintro before act after rfl
    exact timely.heralded before act (after ++ more) (by simp)

/-- Acts that were timely so far stay so. -/
theorem Timely.append {prompted : Bool} {acts more : List Act} (timely : Timely acts)
    (hround : ∀ before own, acts ≠ before ++ [.completed own])
    (hleaves : ∀ before own after, more = before ++ .completed own :: after →
      ∃ act rest, after = act :: rest ∧ (act = .left ∨ ∃ effect, act = .started effect))
    (hprompted : Prompted prompted more) (hopening : prompted = true → (Roll.after acts).live.headD 0 = 0) :
    Timely (acts ++ more) ∧ ∀ before own, acts ++ more ≠ before ++ [.completed own] := by
  refine ⟨⟨fun before own act after hacts => ?_, fun before act after hacts hhandles habove => ?_⟩,
    fun before own hacts => ?_⟩
  · rcases split_of_append hacts with ⟨rest, hfirst, hafter⟩ | ⟨rest, -, hmore⟩
    · cases rest with
      | nil => exact absurd hfirst (hround before own)
      | cons next rest =>
          obtain ⟨rfl, -⟩ := List.cons.inj hafter
          exact timely.leaves before own act rest hfirst
    · obtain ⟨next, further, hnext, hact⟩ := hleaves rest own _ hmore
      obtain ⟨rfl, -⟩ := List.cons.inj hnext
      exact hact
  · rcases split_of_append hacts with ⟨rest, hfirst, -⟩ | ⟨seen, rfl, hmore⟩
    · exact timely.heralded before act rest hfirst hhandles habove
    · rw [hmore] at hprompted
      rcases hprompted.herald hhandles with ⟨rfl, rfl⟩ | ⟨earlier, last, rfl, hlast⟩
      · rw [List.append_nil] at habove
        exact absurd (hopening rfl) habove
      · exact ⟨acts ++ earlier, last, (List.append_assoc ..).symm, hlast⟩
  · rcases split_of_append hacts with ⟨rest, hfirst, hafter⟩ | ⟨rest, -, hmore⟩
    · obtain ⟨rfl, rfl⟩ := List.append_eq_nil_iff.1 hafter.symm
      exact hround before own hfirst
    · obtain ⟨next, further, hnext, -⟩ := hleaves rest own _ hmore
      cases hnext

namespace Machine

variable {machine : Machine}

/-- A frame that can leave, or has something to start, does so when it is unwound. -/
theorem unwindActs_eq_cons (machine : Machine) {run : Run} (habove : run.stack.below ≠ []) :
    ∃ act rest, machine.unwindActs run = act :: rest ∧ (act = .left ∨ ∃ effect, act = .started effect) := by
  unfold unwindActs
  cases hbelow : run.stack.below with
  | nil => exact absurd hbelow habove
  | cons parent rest =>
      unfold unwindActsFrom
      split
      · exact ⟨_, _, rfl, .inr ⟨_, rfl⟩⟩
      · split
        · split <;> exact ⟨_, _, rfl, .inl rfl⟩
        · exact ⟨_, _, rfl, .inl rfl⟩

/-- No computation ends while frames are taken off the stack. -/
theorem completed_not_mem_unwindActs (machine : Machine) (run : Run) (own : Outcome) :
    .completed own ∉ machine.unwindActs run :=
  fun hmem => Bool.false_ne_true (machine.unwinds_unwindActs run _ hmem)

/-- No computation ends while an effect is handled. -/
theorem completed_not_mem_handleActs (machine : Machine) (effect : Effect) (run : Run) (own : Outcome) :
    .completed own ∉ machine.handleActs effect run :=
  fun hmem => Bool.false_ne_true (machine.handles_handleActs effect run _ hmem)

/-- A computation that ends is unwound at once. -/
theorem leaves_stepActs {run : Run} (habove : run.stack.below ≠ []) {before after : List Act} {own : Outcome}
    (hacts : machine.stepActs run = before ++ .completed own :: after) :
    ∃ act rest, after = act :: rest ∧ (act = .left ∨ ∃ effect, act = .started effect) := by
  have hunwind := machine.completed_not_mem_unwindActs
  have hmem : .completed own ∈ machine.stepActs run := by simp [hacts]
  unfold stepActs at hmem hacts
  split at hmem
  · rename_i outcome hrunning
    have hcomplete : ∃ last : Run, last.stack.below ≠ [] ∧
        machine.completeActs outcome run = .completed outcome :: machine.unwindActs last := by
      cases outcome with
      | ok value => exact ⟨finished (.ok value) run, habove, rfl⟩
      | error error => exact ⟨finished (.error error) (run.emit _), habove, rfl⟩
    obtain ⟨last, hlast, hcomplete⟩ := hcomplete
    simp only [hrunning, hcomplete] at hacts
    cases before with
    | nil =>
        obtain ⟨-, rfl⟩ := List.cons.inj hacts
        exact machine.unwindActs_eq_cons hlast
    | cons head before =>
        obtain ⟨-, htail⟩ := List.cons.inj hacts
        exact absurd (htail ▸ List.mem_append_right _ List.mem_cons_self) (hunwind last own)
  · rename_i effect resume hrunning
    have hnot := machine.completed_not_mem_handleActs
    unfold suspendActs noticeActs at hmem
    simp only [List.cons_append, List.mem_cons, List.mem_append] at hmem
    rcases hmem with hsame | hnotice | hhandled
    · cases hsame
    · split at hnotice <;> simp at hnotice
    · split at hhandled
      · simp at hhandled
      · exact absurd hhandled (hnot _ _ _)
  · unfold actActs at hmem
    split at hmem <;> simp at hmem
  · exact absurd hmem (machine.completed_not_mem_turnActs run own)

end Machine

/-- Every process is timely, and stops in the middle of nothing. -/
theorem Runs.timely {machine : Machine} {first : Host} {trace : Trace} {system : System}
    (runs : Runs machine first trace system) (task : TaskId) : Timely (deeds trace task) := by
  have hsteps : StepInvariant machine fun acts run => (∃ stages, Obeys acts stages ∧ Stands stages run.frames) ∧
      Timely acts ∧ ∀ before own, acts ≠ before ++ [.completed own] := by
    refine ⟨fun context signal host => ?_, ?_, fun hlater start => start, ?_, ?_⟩
    · refine ⟨⟨[], .start, .sentinel rfl rfl⟩, ⟨?_, ?_⟩, ?_⟩ <;> simp
    · rintro acts ⟨_, _, top, below, canceled⟩ host context signal hbelow ⟨⟨stages, obeys, stands⟩, timely⟩
      obtain rfl : below = [] := hbelow
      obtain rfl := stands.eq_nil
      exact ⟨⟨[], obeys, .sentinel rfl rfl⟩, timely⟩
    · rintro acts context signal host effect ⟨⟨stages, obeys, stands⟩, timely, hround⟩
      obtain rfl := stands.eq_nil
      have hlive : (Roll.after acts).live.headD 0 = 0 := by
        have hlength := obeys.length_live
        have hsentinel := obeys.sound.sentinel
        obtain ⟨number, hnumber⟩ := List.length_eq_one_iff.1 hlength
        rw [hnumber] at hsentinel ⊢
        simpa using hsentinel
      refine ⟨?_, timely.append hround (fun before own after hacts => ?_)
        (.of_allows (machine.allows_handleActs effect _)) fun _ => hlive⟩
      · exact stands.chain (machine.handle_chain effect _) (machine.allows_handleActs effect _)
          (by simp [Mode.Suits]) obeys
      · have hmem : .completed own ∈ machine.handleActs effect { stack := { context, signal }, host } := by simp [hacts]
        exact absurd hmem (machine.completed_not_mem_handleActs effect _ own)
    · rintro acts run habove ⟨⟨stages, obeys, stands⟩, timely, hround⟩
      have allows := machine.allows_stepActs run fun _ => stands.kept_of_running
      have hprompted := Prompted.of_allows allows
      rw [decide_eq_false (Mode.opening_ne_handling _)] at hprompted
      exact ⟨stands.stepped obeys habove List.prefix_rfl (machine.step_chain run),
        timely.append hround (fun before own after => machine.leaves_stepActs habove) hprompted (by simp)⟩
  obtain ⟨stack, hdrives⟩ := exists_drives (system.driven? task)
  exact (runs.holds_steps hsteps task hdrives).2.1

/-! ## Frames on which nothing is deferred -/

/-- Effects that the core rules neither defer nor replace by another effect. -/
def Effect.isDirect : Effect → Bool
  | .bare _ | .call .. | .execute _ | .fork _ | .generator | .custom .. => true
  | .start _ | .defer _ | .recover | .terminal _ | .next .. => false

/-- Handling such an effect is a single act, which defers nothing. -/
theorem Machine.handleActs_of_isDirect {machine : Machine} {effect : Effect} (hdirect : effect.isDirect = true)
    (run : Run) : ∃ act, machine.handleActs effect run = [act] ∧ ∀ deferred, act ≠ .deferred deferred := by
  unfold handleActs
  split
  · exact ⟨_, rfl, by simp⟩
  · rename_i host hvalid
    rcases hselect : host.run (machine.registry.select effect.operation run.stack.context 0) with
      ⟨_ | ⟨index, handler⟩, later⟩
    · rw [dispatch_of_select hselect, dispatchActs_of_select hselect]
      cases effect with
      | fork effect =>
          cases hscheduled : later.scheduled <;>
            exact ⟨_, by simp [serve, serveActs, core, coreActs, fork, hscheduled, failureActs]; rfl, by simp⟩
      | bare | call | execute | generator | custom => exact ⟨_, rfl, by simp⟩
      | start | defer | recover | terminal | next => cases hdirect
    · rw [dispatch_of_select hselect, dispatchActs_of_select hselect]
      exact ⟨.pushed (handler.handle effect.operation run.stack.context) (some ⟨effect.kind, index⟩), rfl, by simp⟩

/-- An effect that is started was pending at first, or was deferred before. -/
theorem Unwinds.pending_or_deferred {pending last : List Effect} {effect : Effect} {earlier later : List Act}
    (unwinds : Unwinds pending (earlier ++ .started effect :: later) last) :
    effect ∈ pending ∨ .deferred effect ∈ earlier := by
  induction earlier generalizing pending with
  | nil =>
      cases unwinds with
      | start rest => exact .inl List.mem_cons_self
      | other hplain => cases hplain.2
  | cons act earlier ih =>
      cases unwinds with
      | @defer _ _ other _ rest =>
          rcases ih rest with hpending | hdeferred
          · rcases List.mem_cons.1 hpending with rfl | hearlier
            · exact .inr List.mem_cons_self
            · exact .inl hearlier
          · exact .inr (List.mem_cons_of_mem _ hdeferred)
      | start rest => exact (ih rest).imp (List.mem_cons_of_mem _) (List.mem_cons_of_mem _)
      | other hplain rest => exact (ih rest).imp_right (List.mem_cons_of_mem _)

section Processes

variable {machine : Machine} {first : Host} {trace : Trace} {system : System} {task : TaskId} {number : Nat}

/-- What a frame starts was deferred on it before. -/
theorem Runs.deferred_of_started (runs : Runs machine first trace system) (hpos : 0 < number)
    {before after : List Act} {effect : Effect} (hdeeds : deeds trace task = before ++ .started effect :: after)
    (hactor : (Roll.after before).actor (.started effect) = number) : .deferred effect ∈ life before number := by
  obtain ⟨later, hlife⟩ := exists_life_of_split hdeeds hactor
  have hmem : .started effect ∈ life (deeds trace task) number := by simp [hlife]
  obtain ⟨stack, hdrives⟩ := exists_drives (system.driven? task)
  have watched := runs.holds (Watched.invariant unwinding) task hdrives
  obtain ⟨pending, unwinds⟩ := watched.exists_unwinds hpos (watched.tracks.lt_next_of_mem hmem)
  rw [hlife] at unwinds
  exact unwinds.pending_or_deferred.resolve_left List.not_mem_nil

/-- Unless frames are discarded, nothing is deferred on a frame that performs no effects which defer anything. -/
theorem Runs.not_deferring (runs : Runs machine first trace system) (hkept : .dropped ∉ deeds trace task)
    (hpos : 0 < number)
    (hdirect : ∀ effect, .performed effect ∈ life (deeds trace task) number → effect.isDirect = true)
    (deferred : Effect) : .deferred deferred ∉ life (deeds trace task) number := by
  intro hmem
  obtain ⟨before, after, hdeeds, hactor⟩ := exists_of_mem_life hmem
  clear hmem
  induction hlength : before.length using Nat.strongRecOn generalizing before after deferred with
  | ind length ih =>
      obtain ⟨earlier, last, rfl, hlast⟩ := (runs.timely task).heralded before _ after hdeeds rfl
        (by rw [show (Roll.after before).live.headD 0 = number from hactor]; exact Nat.ne_of_gt hpos)
      have hsplit : deeds trace task = earlier ++ last :: .deferred deferred :: after := by simp [hdeeds]
      cases last with
      | performed effect =>
          -- The act of handling it comes next, and defers nothing.
          have hown : (Roll.after earlier).actor (.performed effect) = number := by
            simpa [Roll.actor, Roll.apply] using hactor
          have hperformed : .performed effect ∈ life (deeds trace task) number := by
            obtain ⟨later, hlife⟩ := exists_life_of_split hsplit hown
            simp [hlife]
          obtain ⟨descent, origins⟩ := runs.origins
          rcases origins.handled task earlier effect _ hsplit with ⟨later, hnoticed⟩ | ⟨run, later, -, -, hhandled⟩
          · cases hnoticed
          · obtain ⟨act, hacts, hact⟩ := Machine.handleActs_of_isDirect (hdirect effect hperformed) run
            rw [hacts] at hhandled
            exact hact deferred (List.cons.inj hhandled).1.symm
      | started effect =>
          have hown : (Roll.after earlier).actor (.started effect) = number := by
            simpa [Roll.actor, Roll.apply] using hactor
          have hdeferred := runs.deferred_of_started hpos hsplit hown
          obtain ⟨seen, rest, rfl, hseen⟩ := exists_of_mem_life hdeferred
          exact ih seen.length (by simp at hlength; omega) effect seen (rest ++ .started effect :: .deferred deferred :: after)
            (by simp [hsplit]) hseen rfl
      | dropped => exact hkept (by simp [hsplit])
      | _ => cases hlast

/-- A frame on which nothing is deferred starts nothing. -/
theorem Runs.not_starting (runs : Runs machine first trace system) (hpos : 0 < number)
    (hundeferred : ∀ deferred, .deferred deferred ∉ life (deeds trace task) number) (effect : Effect) :
    .started effect ∉ life (deeds trace task) number := by
  intro hmem
  obtain ⟨before, after, hdeeds, hactor⟩ := exists_of_mem_life hmem
  have hdeferred := runs.deferred_of_started hpos hdeeds hactor
  refine hundeferred effect ?_
  rw [hdeeds]
  exact mem_life_append _ hdeferred

end Processes

/-! ## Frames that wait for the one above -/

/-- A frame waits for the outcome of its effect, and another one stands directly above it. -/
def Serves (acts : List Act) (stages : List Stage) (child parent : Nat) : Prop :=
  ∃ above lower covers base, (Roll.after acts).live = above ++ child :: parent :: lower ∧
    stages = covers ++ .asking :: base ∧ covers.length = above.length + 1

namespace Serves

variable {acts : List Act} {act : Act} {stages after : List Stage} {child parent : Nat}

/-- Nothing that happens meanwhile is about the frame that waits. -/
theorem actor_ne (serves : Serves acts stages child parent) (obeys : Obeys acts stages) (act : Act) :
    (Roll.after acts).actor act ≠ parent := by
  obtain ⟨above, lower, -, -, hlive, -⟩ := serves
  have hbounded := obeys.sound.bounded parent (by simp [hlive])
  have hfalling := obeys.sound.falling
  rw [hlive] at hfalling
  have htop : (Roll.after acts).live.headD 0 ≠ parent := by
    rw [hlive]
    cases above with
    | nil => exact Nat.ne_of_gt ((List.pairwise_cons.1 hfalling).1 parent List.mem_cons_self)
    | cons top above => exact Nat.ne_of_gt ((List.pairwise_cons.1 hfalling).1 parent (by simp))
  cases act with
  | pushed computation tag => exact Nat.ne_of_gt hbounded
  | _ => exact htop

/-- The frame goes on waiting until the one above it is discarded, or leaves and tells it what it has ended with. -/
theorem step (serves : Serves acts stages child parent) (hprotocol : Protocol stages act after)
    (hquiet : act ≠ .noticed) :
    Serves (acts ++ [act]) after child parent ∨ ∃ lower, (Roll.after acts).live = child :: parent :: lower ∧
      (act = .dropped ∨ ∃ own rest, act = .left ∧ stages = .ended own :: .asking :: rest ∧
        after = .answered own :: rest) := by
  obtain ⟨above, lower, covers, base, hlive, hstages, hlength⟩ := serves
  have hsame (hroll : (Roll.after acts).apply act = Roll.after acts) :
      (Roll.after (acts ++ [act])).live = above ++ child :: parent :: lower := by
    rw [Roll.after_concat, hroll, hlive]
  cases covers with
  | nil => simp at hlength
  | cons top covers =>
      cases hprotocol with
      | push hwaits computation tag =>
          exact .inl ⟨(Roll.after acts).next :: above, lower, .fresh :: top :: covers, base, by simp [Roll.apply, hlive],
            by simp [hstages], by simpa using hlength⟩
      | drop hwaits =>
          obtain ⟨-, rfl⟩ := List.cons.inj hstages
          cases above with
          | nil => exact .inr ⟨lower, hlive, .inl rfl⟩
          | cons number above =>
              exact .inl ⟨above, lower, covers, base, by simp [Roll.apply, hlive], rfl, by simpa using hlength⟩
      | leave hwaits outcome =>
          obtain ⟨rfl, rfl⟩ := List.cons.inj hstages
          cases covers with
          | nil =>
              obtain rfl : above = [] := List.eq_nil_of_length_eq_zero (by simpa using hlength.symm)
              exact .inr ⟨lower, hlive, .inr ⟨outcome, base, rfl, rfl, rfl⟩⟩
          | cons second covers =>
              cases above with
              | nil => simp at hlength
              | cons number above =>
                  exact .inl ⟨above, lower, second.told outcome :: covers, base, by simp [Roll.apply, hlive], rfl,
                    by simpa using hlength⟩
      | «catch» hwaits error rest =>
          obtain ⟨rfl, hrest⟩ := List.cons.inj hstages
          cases covers with
          | nil => cases hrest
          | cons second covers =>
              obtain ⟨-, rfl⟩ := List.cons.inj hrest
              exact .inl ⟨above, lower, _ :: .ended (.ok .null) :: covers, base, hsame rfl, rfl,
                by simpa using hlength⟩
      | notice => exact absurd rfl hquiet
      | @top _ later _ hdoes =>
          obtain ⟨rfl, rfl⟩ := List.cons.inj hstages
          have hroll : (Roll.after acts).apply act = Roll.after acts := by cases hdoes <;> rfl
          exact .inl ⟨above, lower, later :: covers, base, hsame hroll, rfl, by simpa using hlength⟩
      | baseDefer | baseAnswer | baseFail | baseFork => cases hstages

end Serves

/-- What becomes of a frame that waits for another one, by some further acts. -/
inductive Awaits (acts more : List Act) (child parent : Nat) (final : List Stage) : Prop
  /-- It waits on. -/
  | on (hlife : life (acts ++ more) parent = life acts parent)
  /-- The other frame is discarded. -/
  | discarded {mid rest : List Act} (hmore : more = mid ++ .dropped :: rest)
      (hhead : (Roll.after (acts ++ mid)).live.head? = some child)
  /-- The other frame leaves. -/
  | told {mid rest : List Act} {own : Outcome} {others : List Stage} {lower : List Nat}
      (hmore : more = mid ++ .left :: rest) (hlive : (Roll.after (acts ++ mid)).live = child :: parent :: lower)
      (obeys : Obeys (acts ++ mid) (.ended own :: .asking :: others))
      (leads : Leads (.answered own :: others) rest final) (hlife : life (acts ++ mid) parent = life acts parent)

/-- A frame that waits does nothing until the frame above it is gone. -/
theorem Leads.awaits {acts more : List Act} {stages final : List Stage} {child parent : Nat}
    (leads : Leads stages more final) (obeys : Obeys acts stages) (serves : Serves acts stages child parent)
    (hquiet : .noticed ∉ more) : Awaits acts more child parent final := by
  induction leads generalizing acts with
  | done => exact .on (by rw [List.append_nil])
  | @act stages middle final act more hprotocol rest ih =>
      have hact : act ≠ .noticed := fun h => hquiet (h ▸ List.mem_cons_self)
      have hlife := life_of_other (serves.actor_ne obeys act)
      rcases serves.step hprotocol hact with hserves | ⟨lower, hlive, rfl | ⟨own, others, rfl, rfl, rfl⟩⟩
      · cases ih (obeys.act hprotocol) hserves fun h => hquiet (List.mem_cons_of_mem _ h) with
        | on hsame => exact .on (by rw [List.append_cons, hsame, hlife])
        | @discarded mid later hmore hhead =>
            have hsplit : act :: more = (act :: mid) ++ .dropped :: later := by rw [hmore, List.cons_append]
            exact .discarded hsplit (by rwa [List.append_cons])
        | @told mid later own others lower hmore hlive obeys leads hsame =>
            have hsplit : act :: more = (act :: mid) ++ .left :: later := by rw [hmore, List.cons_append]
            exact .told hsplit (by rwa [List.append_cons]) (by rwa [List.append_cons]) leads
              (by rw [List.append_cons, hsame, hlife])
      · have hsplit : .dropped :: more = [] ++ .dropped :: more := rfl
        exact .discarded hsplit (by simp [hlive])
      · have hsplit : .left :: more = [] ++ .left :: more := rfl
        exact .told hsplit (by rwa [List.append_nil]) (by rwa [List.append_nil]) rest (by rw [List.append_nil])

/-! ## Frames that end and leave -/

/-- A frame that has ended and starts nothing has just done so. -/
def Candid (acts : List Act) (number : Nat) : Stage → Prop
  | .ended own => (Roll.after acts).live.head? = some number ∧ ∃ earlier, acts = earlier ++ [.completed own]
  | .doomed _ => False
  | .fresh | .running | .asking | .answered _ => True

namespace Candid

variable {acts : List Act} {act : Act} {number : Nat} {stage : Stage} {own outcome : Outcome}

/-- A frame that has just ended leaves next, or starts an effect. -/
theorem next (candid : Candid acts number (.ended own)) (timely : Timely (acts ++ [act])) :
    act = .left ∨ ∃ effect, act = .started effect := by
  obtain ⟨-, earlier, rfl⟩ := candid
  exact timely.leaves earlier own act [] (by simp)

/-- What a frame has ended with is what its computation has ended with. -/
theorem completed (candid : Candid acts number (.ended own)) : .completed own ∈ life acts number := by
  obtain ⟨hhead, earlier, rfl⟩ := candid
  refine mem_life_concat (Roll.actor_of_head ?_ (by simp))
  rwa [Roll.after_concat] at hhead

/-- A frame that waits is told an outcome. -/
theorem tell (candid : Candid acts number stage) (timely : Timely (acts ++ [act]))
    (hact : act ≠ .left ∧ ∀ effect, act ≠ .started effect) : Candid (acts ++ [act]) number (stage.told outcome) := by
  cases stage with
  | ended own => exact absurd (candid.next timely) (by simpa using hact)
  | doomed begun => exact candid
  | fresh | running | asking | answered own => trivial

end Candid

/-- A frame has started nothing, in a timely run without cancellation. -/
structure Undisturbed (acts : List Act) (number : Nat) : Prop where
  calm : .noticed ∉ acts
  timely : Timely acts
  unstarted : ∀ effect, .started effect ∉ life acts number

theorem Undisturbed.left {acts more : List Act} {number : Nat} (undisturbed : Undisturbed (acts ++ more) number) :
    Undisturbed acts number where
  calm := fun hmem => undisturbed.calm (List.mem_append_left _ hmem)
  timely := undisturbed.timely.left
  unstarted := fun effect hmem => undisturbed.unstarted effect (mem_life_append _ hmem)

/-- Follows how frames end that start nothing. -/
def candid : StageWatch where
  kept := fun acts number stage => Undisturbed acts number → Candid acts number stage
  fresh := fun _ _ _ _ _ => trivial
  own := by
    intro acts act number stage after hhead hdoes kept undisturbed
    have hbefore := kept undisturbed.left
    cases hdoes with
    | defer hwaits effect =>
        cases stage with
        | ended own => exact absurd (hbefore.next undisturbed.timely) (by simp)
        | doomed begun => exact hbefore
        | fresh | running | asking | answered own => trivial
    | start own effect =>
        exact absurd (mem_life_concat (Roll.actor_of_head hhead (by simp))) (undisturbed.unstarted effect)
    | answer | fail | fork => exact hbefore.tell undisturbed.timely (by simp)
    | begin | resume | resumeWith | act | wait | perform => trivial
    | complete outcome => exact ⟨by rwa [Roll.after_concat], acts, rfl⟩
    | giveUp begun => exact hbefore.elim
  take := by
    intro acts number stage error hhead hwaits kept undisturbed
    have hbefore := kept undisturbed.left
    cases stage with
    | ended own => exact absurd (hbefore.next undisturbed.timely) (by simp)
    | doomed begun => exact hbefore.elim
    | fresh | running | asking | answered own => trivial
  rob := fun hbeneath kept undisturbed =>
    absurd ((kept undisturbed.left).next undisturbed.timely) (by simp)
  receive := by
    intro acts number stage outcome stages hbeneath obeys hwaits kept undisturbed
    have hbefore := kept undisturbed.left
    cases stage with
    | ended own =>
        -- It would have to be on top, where the frame is that leaves.
        obtain ⟨above, second, rest, hlive, hless, -⟩ := obeys.live_eq_two
        have htop : above = number := by simpa [hlive] using hbefore.1
        have hsecond := hbeneath.eq hlive
        omega
    | doomed begun => exact hbefore
    | fresh | running | asking | answered own => trivial
  mark := fun _ _ _ undisturbed => absurd (by simp) undisturbed.calm
  stay := by
    intro acts act number stage hlive hother hnotice hbeneath kept undisturbed
    have hbefore := kept undisturbed.left
    cases stage with
    | ended own =>
        rcases hbefore.next undisturbed.timely with rfl | ⟨effect, rfl⟩ <;>
          exact absurd (Roll.actor_of_head hbefore.1 (by simp)) hother
    | doomed begun => exact hbefore
    | fresh | running | asking | answered own => trivial

/-! ## The main statement -/

/-- A frame that is told what the one above it has ended with goes on with that. -/
theorem Obeys.goes_on {acts rest : List Act} {own : Outcome} {others final : List Stage} {child parent : Nat}
    {lower : List Nat} (obeys : Obeys acts (.ended own :: .asking :: others))
    (hlive : (Roll.after acts).live = child :: parent :: lower) (leads : Leads (.answered own :: others) rest final)
    (hquiet : .noticed ∉ rest) : ∃ later, life (acts ++ .left :: rest) parent = life acts parent ++ later ∧
      (later = [] ∨ ∃ more, later = .resumed own :: more) := by
  have hfalling := obeys.sound.falling
  rw [hlive] at hfalling
  have hless : parent < child := (List.pairwise_cons.1 hfalling).1 parent List.mem_cons_self
  have hleft : life (acts ++ [.left]) parent = life acts parent :=
    life_of_other (by simpa [Roll.actor, hlive] using Nat.ne_of_gt hless)
  rcases leads.resumed hquiet with rfl | ⟨rest, rfl⟩
  · exact ⟨[], by rw [hleft, List.append_nil], .inl rfl⟩
  · have hhead : (Roll.after (acts ++ [.left])).live.head? = some parent := by simp [Roll.apply, hlive]
    have hsplit : acts ++ .left :: .resumed own :: rest = (acts ++ [.left]) ++ .resumed own :: rest := by simp
    obtain ⟨later, hlater⟩ := exists_life_of_split hsplit (Roll.actor_of_head hhead (by simp))
    exact ⟨.resumed own :: later, by rw [hlater, hleft], .inr ⟨later, rfl⟩⟩

section Processes

variable {machine : Machine} {first : Host} {trace : Trace} {system : System} {task : TaskId}

/-- A computation whose effect is serviced by a frame that starts nothing is resumed with what that frame has ended with,
unless the frame is discarded; before that it does nothing. -/
theorem Runs.answered (runs : Runs machine first trace system) (hcalm : .noticed ∉ deeds trace task)
    {before after : List Act} {effect : Effect} {computation : Computation} {tag : Option HandlerTag} {parent : Nat}
    (hdeeds : deeds trace task = before ++ .performed effect :: .pushed computation tag :: after)
    (hhead : (Roll.after before).live.head? = some parent)
    (hstarted : ∀ effect, .started effect ∉ life (deeds trace task) (Roll.after before).next)
    (hkept : .dropped ∉ life (deeds trace task) (Roll.after before).next) :
    ∃ later, life (deeds trace task) parent = life before parent ++ .performed effect :: later ∧
      (later = [] ∨ ∃ own rest, .completed own ∈ life (deeds trace task) (Roll.after before).next ∧
        later = .resumed own :: rest) := by
  obtain ⟨lower, hlive⟩ := List.head?_eq_some_iff.1 hhead
  obtain ⟨final, hall⟩ := runs.exists_obeys task
  obtain ⟨stages, obeys, leads⟩ := hall.leads hdeeds
  generalize hchild : (Roll.after before).next = child at hstarted hkept ⊢
  -- The computation performs the effect, and the frame that services it is put on top.
  obtain ⟨sofar, base, hsofar, hperformed, hmiddle, hserves, hleads⟩ : ∃ sofar base,
      deeds trace task = sofar ++ after ∧ life sofar parent = life before parent ++ [.performed effect] ∧
        Obeys sofar (.fresh :: .asking :: base) ∧ Serves sofar (.fresh :: .asking :: base) child parent ∧
        Leads (.fresh :: .asking :: base) after final := by
    cases leads with
    | act hperforms rest =>
        have hasked := obeys.act hperforms
        cases hperforms with
        | @top top _ _ hasks base =>
            cases hasks
            cases rest with
            | act hpushes rest =>
                have hnext := hasked.act hpushes
                cases hpushes with
                | push =>
                    refine ⟨_, base, by simp [hdeeds], ?_, hnext, ⟨[], lower, [.fresh], base, ?_, rfl, rfl⟩, rest⟩
                    · have hnew : parent < (Roll.after before).next := obeys.sound.bounded parent (by simp [hlive])
                      rw [life_of_other (by simpa [Roll.actor, Roll.apply] using Nat.ne_of_gt hnew),
                        life_of_head hhead (by simp)]
                    · rw [Roll.after_concat, Roll.after_concat]
                      simp [Roll.apply, hlive, hchild]
                | top hdoes => cases hdoes
  have hquiet : .noticed ∉ after := fun h => hcalm (by simp [hsofar, h])
  cases hleads.awaits hmiddle hserves hquiet with
  | on hsame => exact ⟨[], by rw [hsofar, hsame, hperformed], .inl rfl⟩
  | @discarded mid rest hmore hhead =>
      have hsplit : deeds trace task = (sofar ++ mid) ++ .dropped :: rest := by simp [hsofar, hmore]
      obtain ⟨later, hlater⟩ := exists_life_of_split hsplit (Roll.actor_of_head hhead (by simp))
      exact absurd (by simp [hlater]) hkept
  | @told mid rest own others lower hmore hlive hends htold hsame =>
      have hsplit : deeds trace task = (sofar ++ mid) ++ .left :: rest := by simp [hsofar, hmore]
      have undisturbed : Undisturbed (deeds trace task) child := ⟨hcalm, runs.timely task, hstarted⟩
      have hcandid : Candid (sofar ++ mid) child (.ended own) :=
        hends.kept_top candid (by rw [hlive]; rfl) (hsplit ▸ undisturbed).left
      obtain ⟨later, hlater, hresumed⟩ := hends.goes_on hlive htold fun h => hquiet (by simp [hmore, h])
      have hcompleted : .completed own ∈ life (deeds trace task) child := by
        rw [hsplit]
        exact mem_life_append _ hcandid.completed
      refine ⟨later, ?_, hresumed.imp_right fun hagain => ?_⟩
      · rw [hsplit, hlater, hsame, hperformed, List.append_assoc, List.singleton_append]
      · obtain ⟨rest, hrest⟩ := hagain
        exact ⟨own, rest, hcompleted, hrest⟩

/-- The same, of a computation that is known by its strides and performs an effect which puts a frame on the stack. -/
theorem Runs.answer_of_strides (runs : Runs machine first trace system) (hcalm : .noticed ∉ deeds trace task)
    {path later : List Act} {effect : Effect} {computation : Computation} {tag : Option HandlerTag} {parent : Nat}
    (hpos : 0 < parent) (hhandles : ∀ run : Run, machine.handleActs effect run = [.pushed computation tag])
    (hstrides : strides (life (deeds trace task) parent) = path ++ .performed effect :: later) :
    ∃ before after, deeds trace task = before ++ .performed effect :: .pushed computation tag :: after ∧
      (Roll.after before).live.head? = some parent ∧ strides (life before parent) = path ∧
      ((∀ effect, .started effect ∉ life (deeds trace task) (Roll.after before).next) →
        .dropped ∉ life (deeds trace task) (Roll.after before).next →
        later = [] ∨ ∃ own rest, .completed own ∈ life (deeds trace task) (Roll.after before).next ∧
          later = .resumed own :: rest) := by
  obtain ⟨before, after, hdeeds, hactor, hpath⟩ := exists_of_strides hstrides
  obtain ⟨descent, origins⟩ := runs.origins
  obtain ⟨rest, rfl⟩ : ∃ rest, after = .pushed computation tag :: rest := by
    rcases origins.handled task before effect after hdeeds with ⟨rest, rfl⟩ | ⟨run, rest, -, -, rfl⟩
    · exact absurd (by simp [hdeeds]) hcalm
    · exact ⟨rest, by rw [hhandles]; rfl⟩
  have hhead : (Roll.after before).live.head? = some parent := Roll.head?_eq hpos hactor
  refine ⟨before, rest, hdeeds, hhead, hpath, fun hstarted hkept => ?_⟩
  obtain ⟨more, hlife, hmore⟩ := runs.answered hcalm hdeeds hhead hstarted hkept
  have hsame : later = strides more := by
    have hboth := hstrides.symm.trans (congrArg strides hlife)
    rw [strides_append, hpath] at hboth
    exact (List.cons.inj (List.append_cancel_left hboth)).2
  rcases hmore with rfl | ⟨own, rest, hcompleted, rfl⟩
  · exact .inl hsame
  · exact .inr ⟨own, strides rest, hcompleted, hsame⟩

end Processes

end EffectMachine
