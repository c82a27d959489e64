import EffectMachine.Proofs.Acts.Moments
import EffectMachine.Proofs.Interleaving.Endings
import EffectMachine.Proofs.Protocol.Resumption
import EffectMachine.Proofs.Unwinding.Verdicts

/-!
# The order of cleanup

A frame that has ended runs what was deferred on it, the most recent effect first and one at a time, before the frame
below goes on.

* `Unwinds` says of the acts of one frame that they defer and start effects in last-in, first-out order, and
  `unwinding` is the watch that follows it.
* `GoesOn` is how the frame below goes on: once, and at once.
* `InTurn` puts these together for one frame, and `inTurn_of_completed` is the main statement.
-/

namespace EffectMachine

/-! ## Last in, first out -/

/-- The acts of a frame lead from the effects that are pending on it to those that are pending after: an effect that is
deferred is pending before all others, and the first one is started next. -/
inductive Unwinds : List Effect → List Act → List Effect → Prop
  | done (pending : List Effect) : Unwinds pending [] pending
  | defer {pending last : List Effect} {effect : Effect} {acts : List Act}
      (rest : Unwinds (effect :: pending) acts last) : Unwinds pending (.deferred effect :: acts) last
  | start {pending last : List Effect} {effect : Effect} {acts : List Act} (rest : Unwinds pending acts last) :
      Unwinds (effect :: pending) (.started effect :: acts) last
  | other {pending last : List Effect} {act : Act} {acts : List Act}
      (hplain : act.recorded? = none ∧ act.started? = none) (rest : Unwinds pending acts last) :
      Unwinds pending (act :: acts) last

namespace Unwinds

variable {pending middle last : List Effect} {acts more : List Act} {act : Act} {number : Nat}

theorem append (hfirst : Unwinds pending acts middle) (hmore : Unwinds middle more last) :
    Unwinds pending (acts ++ more) last := by
  induction hfirst with
  | done => exact hmore
  | defer rest ih => exact .defer (ih hmore)
  | start rest ih => exact .start (ih hmore)
  | other hplain rest ih => exact .other hplain (ih hmore)

/-- An act adds to the life of the frame that it is about. -/
theorem own (unwinds : Unwinds [] (life acts number) pending) (hactor : (Roll.after acts).actor act = number)
    (hact : Unwinds pending [act] last) : Unwinds [] (life (acts ++ [act]) number) last := by
  rw [life_concat, if_pos hactor]
  exact unwinds.append hact

/-- An act that is about another frame changes nothing. -/
theorem stay (unwinds : Unwinds [] (life acts number) pending) (hother : (Roll.after acts).actor act ≠ number) :
    Unwinds [] (life (acts ++ [act]) number) pending := by
  rwa [life_of_other hother]

end Unwinds

/-- What an act does to a frame goes with its pending effects. -/
theorem Frame.Does.unwinds {frame after : Frame} {act : Act} (hdoes : frame.Does act after) :
    Unwinds frame.defers [act] after.defers := by
  cases hdoes with
  | tell act result htells =>
      refine .other ?_ (.done _)
      cases act <;> first | exact ⟨rfl, rfl⟩ | cases htells
  | defer effect => exact .defer (.done _)
  | start effect defers hfinished hdefers =>
      rw [hdefers]
      exact .start (.done _)
  | notice =>
      have hsame : frame.markCanceled.defers = frame.defers := by
        unfold Frame.markCanceled
        split <;> rfl
      rw [hsame]
      exact .other ⟨rfl, rfl⟩ (.done _)
  | begin | resume | act | wait | perform | complete | giveUp | vacate => exact .other ⟨rfl, rfl⟩ (.done _)

/-- What an act does to a frame that it is not about leaves its pending effects alone. -/
theorem Frame.Beside.defers_eq {frame after : Frame} {act : Act} (hbeside : frame.Beside act after) :
    after.defers = frame.defers := by
  cases hbeside with
  | marked =>
      unfold Frame.markCanceled
      split <;> rfl
  | same | received | robbed => rfl

/-- Follows the order in which frames start what was deferred on them. -/
def unwinding : Watch where
  kept := fun acts number frame => Unwinds [] (life acts number) frame.defers
  gone := fun acts number => ∃ pending, Unwinds [] (life acts number) pending ∧
    (.dropped ∈ life acts number ∨ .left ∈ life acts number ∧ pending = [])
  fresh := fun computation tag hunborn hnext => by
    rw [life_pushed hunborn hnext]
    exact .other ⟨rfl, rfl⟩ (.done _)
  own := fun _ hactor _ hdoes unwinds => unwinds.own hactor hdoes.unwinds
  beside := fun _ hother _ hbeside unwinds => hbeside.defers_eq ▸ unwinds.stay hother
  drop := fun _ hactor unwinds =>
    ⟨_, unwinds.own hactor (.other ⟨rfl, rfl⟩ (.done _)), .inl (mem_life_concat hactor)⟩
  leave := fun _ hactor _ hdefers unwinds =>
    ⟨_, unwinds.own hactor (.other ⟨rfl, rfl⟩ (.done _)), .inr ⟨mem_life_concat hactor, hdefers⟩⟩
  stay := fun hother ⟨pending, unwinds, hgone⟩ =>
    ⟨pending, unwinds.stay hother, hgone.imp (mem_life_append _) (And.imp_left (mem_life_append _))⟩

/-- The effects of every frame are started in this order. -/
theorem Watched.exists_unwinds {acts : List Act} {run : Run} {number : Nat} (watched : Watched unwinding acts run)
    (hpos : 0 < number) (hnext : number < (Roll.after acts).next) :
    ∃ pending, Unwinds [] (life acts number) pending := by
  by_cases hlive : number ∈ (Roll.after acts).live
  · obtain ⟨frame, -, unwinds⟩ := watched.kept.exists_of_mem hlive hpos
    exact ⟨frame.defers, unwinds⟩
  · obtain ⟨pending, unwinds, -⟩ := watched.gone number hpos hnext hlive
    exact ⟨pending, unwinds⟩

/-! ## One at a time -/

/-- Nothing is left of the frames that were pushed above a frame: they are gone, and all that was deferred on them has
been started, but for frames that were discarded. -/
def Uncovered (acts : List Act) (number : Nat) : Prop :=
  ∀ other, number < other → other < (Roll.after acts).next →
    other ∉ (Roll.after acts).live ∧ Settled acts other

/-- Nothing is left above the frame on top. -/
theorem Watched.uncovered {acts : List Act} {run : Run} {number : Nat} (watched : Watched account acts run)
    (hhead : (Roll.after acts).live.head? = some number) : Uncovered acts number := by
  intro other hless hnext
  have hgone : other ∉ (Roll.after acts).live := by
    intro hlive
    obtain ⟨rest, hrest⟩ := List.head?_eq_some_iff.1 hhead
    have hfalling := watched.tracks.sound.falling
    rw [hrest] at hlive hfalling
    rcases List.mem_cons.1 hlive with rfl | hbelow
    · exact absurd hless (Nat.lt_irrefl _)
    · have hlower := (List.pairwise_cons.1 hfalling).1 other hbelow
      omega
  exact ⟨hgone, watched.gone other (by omega) hnext hgone⟩

/-- While a frame is on the stack, all that happens is about it or about frames above it. -/
theorem Tracks.le_actor {acts : List Act} {run : Run} {number : Nat} (tracks : Tracks acts run)
    (hlive : number ∈ (Roll.after acts).live) (act : Act) : number ≤ (Roll.after acts).actor act := by
  have htop : number ≤ (Roll.after acts).live.headD 0 := by
    cases hfull : (Roll.after acts).live with
    | nil => simp [hfull] at hlive
    | cons top rest =>
        have hfalling := tracks.sound.falling
        rw [hfull] at hlive hfalling
        rcases List.mem_cons.1 hlive with rfl | hbelow
        · exact Nat.le_refl _
        · exact Nat.le_of_lt ((List.pairwise_cons.1 hfalling).1 number hbelow)
  cases act with
  | pushed computation tag => exact Nat.le_of_lt (tracks.sound.bounded number hlive)
  | _ => exact htop

/-- In an uncanceled run, the computation of a frame that has finished has ended by itself. -/
theorem Kept.completed {acts : List Act} {number : Nat} {frame : Frame} (kept : Kept acts number frame)
    (hfinished : frame.isFinished = true) (hdropped : .dropped ∉ life acts number) (hquiet : .noticed ∉ acts) :
    Completed acts number := by
  cases kept.ended hfinished with
  | completed own hcompleted => exact ⟨own, hcompleted⟩
  | dropped hmem => exact absurd hmem hdropped
  | givenUp hgivenUp hovertaken =>
      obtain ⟨before, after, rfl, -⟩ := hovertaken
      exact absurd (by simp) hquiet

/-! ## The frame below -/

/-- A frame that has left was above another one, which goes on: it unwinds further if its computation has ended, and
otherwise it is resumed before anything else happens, and not again before it has performed another effect. -/
inductive GoesOn (acts before after : List Act) (parent : Nat) : Prop
  | unwinding {later : List Act} (hcompleted : Completed before parent)
      (hlife : life acts parent = life before parent ++ later) (hnever : ∀ outcome, .resumed outcome ∉ later)
  | atRest (hlast : after = [])
  | resumed {outcome : Outcome} {rest later : List Act} (hnext : after = .resumed outcome :: rest)
      (hlife : life acts parent = life before parent ++ .resumed outcome :: later)
      (honce : ∀ earlier again further, later = earlier ++ .resumed again :: further →
        ∃ effect, .performed effect ∈ earlier)

section Resumptions

variable {first last : Progress} {acts : List Act}

/-- A computation that has ended is not resumed. -/
theorem Plays.not_mem_resumed (plays : Plays .finished acts last) (outcome : Outcome) : .resumed outcome ∉ acts := by
  intro hmem
  generalize hfirst : Progress.finished = first at plays
  induction plays with
  | done => cases hmem
  | aside haside rest ih =>
      rcases List.mem_cons.1 hmem with rfl | hlater
      · cases haside
      · exact ih hlater hfirst
  | giveUp hgoing rest ih => exact hgoing hfirst.symm
  | begin | resume | act | wait | perform | complete | vacate => cases hfirst

/-- A running computation is resumed only after it has performed an effect. -/
theorem Plays.performed_of_resumed {body : Body} {earlier further : List Act} {again : Outcome}
    (plays : Plays (.running body) (earlier ++ .resumed again :: further) last) :
    ∃ effect, .performed effect ∈ earlier := by
  induction earlier generalizing body with
  | nil =>
      cases plays with
      | aside haside => cases haside
  | cons act earlier ih =>
      cases plays with
      | aside haside rest => exact (ih rest).imp fun _ hmem => List.mem_cons_of_mem _ hmem
      | act rest => exact (ih rest).imp fun _ hmem => List.mem_cons_of_mem _ hmem
      | wait rest => exact (ih rest).imp fun _ hmem => List.mem_cons_of_mem _ hmem
      | @perform effect => exact ⟨effect, List.mem_cons_self⟩
      | complete rest => exact absurd (by simp) (rest.not_mem_resumed again)
      | giveUp hgoing rest => exact absurd (by simp) (rest.not_mem_resumed again)

/-- What a computation does once it is resumed is that of a running one. -/
theorem Plays.running_of_resumed {outcome : Outcome} (plays : Plays first (.resumed outcome :: acts) last) :
    ∃ body, Plays (.running body) acts last := by
  cases plays with
  | aside haside => cases haside
  | begin rest => exact ⟨_, rest⟩
  | resume rest => exact ⟨_, rest⟩

/-- What a computation does once it has ended is that of a finished one. -/
theorem Plays.finished_of_completed {own : Outcome} (plays : Plays first (.completed own :: acts) last) :
    Plays .finished acts last := by
  cases plays with
  | aside haside => cases haside
  | complete rest => exact rest

end Resumptions

section Histories

variable {machine : Machine} {context : Context} {signal : Option TaskId} {effect : Effect}
variable {acts before after : List Act} {run : Run} {number parent : Nat}

/-- The acts of a frame, from some moment on, are those of its computation. -/
theorem History.plays_from (history : History machine context signal effect acts run) (hpos : 0 < number)
    (hnext : number < (Roll.after acts).next) {earlier later : List Act} {act : Act}
    (hlife : life acts number = earlier ++ act :: later) (hpushed : ∀ computation tag, act ≠ .pushed computation tag) :
    ∃ progress last, Plays progress (act :: later) last := by
  obtain ⟨last, computation, tag, rest, hborn, plays⟩ := (history.watched lives).exists_lives hpos hnext
  rw [hborn] at hlife
  cases earlier with
  | nil =>
      obtain ⟨rfl, -⟩ := List.cons.inj hlife
      exact absurd rfl (hpushed computation tag)
  | cons head earlier =>
      obtain ⟨rfl, rfl⟩ := List.cons.inj hlife
      obtain ⟨middle, -, hmore⟩ := plays.split
      exact ⟨middle, last, hmore⟩

/-- A frame on the stack was not discarded. -/
theorem Moment.not_mem_dropped (moment : Moment machine context signal effect acts run) (hpos : 0 < number)
    (hlive : number ∈ (Roll.after acts).live) : .dropped ∉ life acts number := by
  obtain ⟨stages, obeys, -⟩ := moment.stands
  obtain ⟨place, hplace, rfl⟩ := List.getElem_of_mem hlive
  have hlength := obeys.length_live
  have hsentinel := obeys.sound.sentinel
  have hinside : place < stages.length := by
    by_contra hlast
    obtain rfl : place = stages.length := by omega
    rw [List.getLast?_eq_getElem?, hlength, Nat.add_sub_cancel, List.getElem?_eq_getElem hplace] at hsentinel
    rw [Option.some.inj hsentinel] at hpos
    exact absurd hpos (Nat.lt_irrefl _)
  have hmem : ((Roll.after acts).live[place], stages[place]) ∈ posts acts stages := by
    rw [posts]
    exact List.mem_iff_getElem.2 ⟨place, by simp [hlength, hinside], by simp⟩
  exact (obeys.kept ceasing _ hmem).dropped

/-- Right before a frame leaves, the computation of the frame below waits for an outcome unless it has ended by
itself. -/
theorem Moment.asking_of_left {next : Run} (moment : Moment machine context signal effect acts run)
    (hdoes : run.Does .left next) (hquiet : .noticed ∉ acts) (hbeneath : Beneath acts parent) (hpos : 0 < parent)
    (hgoing : ¬ Completed acts parent) :
    ∃ own stages, Obeys acts (.ended own :: .asking :: stages) := by
  obtain ⟨stages, obeys, stands⟩ := moment.stands
  obtain ⟨top, rest, hlive⟩ := hbeneath
  have hdropped := moment.not_mem_dropped hpos (show parent ∈ (Roll.after acts).live by simp [hlive])
  have hkept := (moment.watched account).kept
  cases hdoes with
  | leave below others hbelow hfinished hdefers =>
      have hframes : run.frames = run.stack.top :: below :: others := by rw [Run.frames, hbelow]
      rw [hframes] at stands hkept
      rw [hlive] at hkept
      obtain ⟨_, hkept⟩ := List.forall₂_cons.1 hkept
      have account : Kept acts parent below := (List.forall₂_cons.1 hkept).1 hpos
      have hcomputes : below.progress ≠ .root := account.computes
      obtain ⟨first, later, rfl, hagrees, hwaits, hbeneath⟩ := stands.exists_above
      obtain rfl := hagrees.eq_ended hfinished
      obtain ⟨second, later, rfl, hsecond, -⟩ := hbeneath.exists_at hcomputes
      have hdoomed := (obeys.going hquiet).2
      refine ⟨run.stack.top.result, later, ?_⟩
      cases second with
      | asking => exact obeys
      | ended own =>
          exact absurd (account.completed (hsecond.isFinished_iff.2 ⟨own, rfl⟩) hdropped hquiet) hgoing
      | doomed begun => exact absurd (hdoomed (.doomed begun) (by simp)) (by simp [Stage.isDoomed])
      | fresh | running | answered own => exact (hwaits _ rfl).elim

/-- A frame that was told its outcome goes on with it, before anything else happens. -/
theorem Leads.resumed {stages final : List Stage} {outcome : Outcome} {more : List Act}
    (leads : Leads (.answered outcome :: stages) more final) (hquiet : .noticed ∉ more) :
    more = [] ∨ ∃ rest, more = .resumed outcome :: rest := by
  cases leads with
  | done => exact .inl rfl
  | @act _ _ _ act acts hprotocol rest =>
      refine .inr ⟨acts, ?_⟩
      cases hprotocol with
      | push hwaits => exact (hwaits _ rfl).elim
      | drop hwaits => exact hwaits.elim
      | «catch» hwaits => exact hwaits.elim
      | notice => exact absurd List.mem_cons_self hquiet
      | top hdoes =>
          cases hdoes with
          | resumeWith => rfl
          | defer hwaits | answer hwaits | fail hwaits | fork hwaits => exact hwaits.elim

/-- A frame that has left is followed by the frame below. -/
theorem History.goesOn (history : History machine context signal effect acts run) (hquiet : .noticed ∉ acts)
    (hacts : acts = before ++ .left :: after) (hbeneath : Beneath before parent) (hpos : 0 < parent) :
    GoesOn acts before after parent := by
  obtain ⟨top, rest, hlive⟩ := hbeneath
  have hmem : parent ∈ (Roll.after before).live := by simp [hlive]
  have hquietBefore : .noticed ∉ before := fun h => hquiet (hacts ▸ List.mem_append_left _ h)
  have hquietAfter : .noticed ∉ after := fun h => hquiet (hacts ▸ by simp [h])
  obtain ⟨earlier, next, moment, hdoes, -⟩ := history.exists_does hacts
  have hsound := (moment.watched account).tracks.sound
  have hfalling := hsound.falling
  rw [hlive] at hfalling
  have hless : parent < top := (List.pairwise_cons.1 hfalling).1 parent List.mem_cons_self
  have hnext : parent < (Roll.after acts).next :=
    Nat.lt_of_lt_of_le (hsound.bounded parent hmem) (hacts ▸ Roll.next_after_le_append before _)
  by_cases hcompleted : Completed before parent
  · obtain ⟨own, hown⟩ := hcompleted
    obtain ⟨later, hlater⟩ := life_prefix before (.left :: after) parent
    rw [← hacts] at hlater
    refine .unwinding ⟨own, hown⟩ hlater fun outcome hresumed => ?_
    obtain ⟨first, middle, hsplit⟩ := List.append_of_mem hown
    have hlife : life acts parent = first ++ .completed own :: (middle ++ later) := by simp [hlater, hsplit]
    obtain ⟨progress, last, plays⟩ := history.plays_from hpos hnext hlife (by simp)
    exact plays.finished_of_completed.not_mem_resumed outcome (List.mem_append_right _ hresumed)
  · obtain ⟨own, stages, hasking⟩ :=
      moment.asking_of_left hdoes hquietBefore ⟨top, rest, hlive⟩ hpos hcompleted
    obtain ⟨final, obeys, -⟩ := history.stands
    obtain ⟨others, hothers, leads⟩ := obeys.leads hacts
    have hresumed : after = [] ∨ ∃ rest, after = .resumed own :: rest := by
      obtain ⟨_, others, hfirst, hrest, rfl⟩ := List.forall₂_cons_left_iff.1 (hasking.alike hothers)
      obtain ⟨_, others, hsecond, -, rfl⟩ := List.forall₂_cons_left_iff.1 hrest
      cases hfirst
      cases hsecond
      cases leads with
      | act hprotocol rest =>
          cases hprotocol with
          | leave => exact rest.resumed hquietAfter
          | top hdoes => cases hdoes
    rcases hresumed with rfl | ⟨rest, rfl⟩
    · exact .atRest rfl
    · have hhead : (Roll.after (before ++ [.left])).live.head? = some parent := by
        simp [Roll.apply, hlive]
      have hsplit : acts = (before ++ [.left]) ++ .resumed own :: rest := by simp [hacts]
      obtain ⟨later, hlater⟩ := exists_life_of_split hsplit (Roll.actor_of_head hhead (by simp))
      have hactor : (Roll.after before).actor .left ≠ parent := by
        simpa [Roll.actor, hlive] using Nat.ne_of_gt hless
      refine .resumed rfl (hlater.trans (by rw [life_of_other hactor])) ?_
      rintro earlier again further rfl
      obtain ⟨progress, last, plays⟩ := history.plays_from hpos hnext hlater (by simp)
      obtain ⟨body, running⟩ := plays.running_of_resumed
      exact running.performed_of_resumed

end Histories

/-! ## The main statement -/

/-- The cleanup of a frame is done in turn, as far as it has come by these acts. -/
structure InTurn (machine : Machine) (acts : List Act) (number : Nat) : Prop where
  /-- Every deferred effect is handled as soon as it is started. -/
  served : HandlesStarted machine acts
  /-- The effects of the frame are started in last-in, first-out order. -/
  lastFirst : ∃ pending, Unwinds [] (life acts number) pending
  /-- An effect is started once the computation has ended, and nothing is left of the effects started before it. -/
  alone : ∀ before effect after, acts = before ++ .started effect :: after →
    (Roll.after before).live.head? = some number → Completed before number ∧ Uncovered before number
  /-- Nothing happens below the frame while it is on the stack. -/
  covers : ∀ before act after, acts = before ++ act :: after → number ∈ (Roll.after before).live →
    number ≤ (Roll.after before).actor act
  /-- When the frame leaves it has started everything, nothing is left of that, and the frame below goes on. -/
  leaves : ∀ before after, acts = before ++ .left :: after → (Roll.after before).live.head? = some number →
    Unwinds [] (life before number) [] ∧ Uncovered before number ∧
      ∀ parent, 0 < parent → Beneath before parent → GoesOn acts before after parent

/-- Deferred effects run last in, first out, one at a time, before the frame below goes on.  In an uncanceled run this is
so for every frame whose computation has ended and which was not discarded; and once the stack is down to its sentinel,
the frame has left and started all that was deferred on it. -/
theorem inTurn_of_completed {machine : Machine} {context : Context} {signal : Option TaskId} {effect : Effect}
    {acts : List Act} {run : Run} {number : Nat} (history : History machine context signal effect acts run)
    (hquiet : .noticed ∉ acts) (hpos : 0 < number) (hcompleted : Completed acts number)
    (hkept : .dropped ∉ life acts number) :
    InTurn machine acts number ∧
      (run.stack.below = [] → .left ∈ life acts number ∧ Unwinds [] (life acts number) []) := by
  obtain ⟨own, hown⟩ := hcompleted
  have watched := history.watched unwinding
  have hnext := watched.tracks.lt_next_of_mem hown
  refine ⟨⟨history.handlesStarted, watched.exists_unwinds hpos hnext, ?_, ?_, ?_⟩, ?_⟩
  · intro before effect after hacts hhead
    obtain ⟨earlier, next, moment, hdoes, -⟩ := history.exists_does hacts
    have account := moment.watched account
    refine ⟨?_, account.uncovered hhead⟩
    cases hdoes with
    | start _ defers hbelow hfinished hdefers =>
        exact (account.kept_top hhead hpos).completed hfinished
          (moment.not_mem_dropped hpos (List.mem_of_mem_head? hhead))
          fun h => hquiet (hacts ▸ List.mem_append_left _ h)
  · intro before act after hacts hlive
    obtain ⟨earlier, next, moment, -, -⟩ := history.exists_does hacts
    exact (moment.watched account).tracks.le_actor hlive act
  · intro before after hacts hhead
    obtain ⟨earlier, next, moment, hdoes, -⟩ := history.exists_does hacts
    refine ⟨?_, (moment.watched account).uncovered hhead, fun parent hparent hbeneath =>
      history.goesOn hquiet hacts hbeneath hparent⟩
    cases hdoes with
    | leave parent rest hbelow hfinished hdefers =>
        have unwinds : Unwinds [] (life before number) earlier.stack.top.defers :=
          (moment.watched unwinding).kept_top hhead hpos
        rwa [hdefers] at unwinds
  · intro hsettled
    obtain ⟨pending, unwinds, hgone⟩ :=
      watched.gone number hpos hnext (watched.tracks.not_mem_live hsettled hpos)
    rcases hgone with hdropped | ⟨hleft, rfl⟩
    · exact absurd hdropped hkept
    · exact ⟨hleft, unwinds⟩

/-! ## A sample run -/

namespace Deferring

/-- A computation that defers two effects, the second of which defers another one, and then fails. -/
def nested : Effect :=
  .bare ⟨some "main", .andThen (.defer (.bare (.ready .null))) fun _ =>
    .andThen (.defer (.defer (.bare (.failing boom)))) fun _ => .fail boom⟩

/-- What it does on a host without other processes, and what the stack is like in the end. -/
def nestedDeeds : List Act × Run :=
  Machine.bare.settle (.blank 0) nested {} 20

theorem uncut_nested : nestedDeeds.1.any Act.cuts = false := by
  decide +kernel

theorem settled_nested : nestedDeeds.2.stack.below = [] :=
  List.isEmpty_iff.1 (by decide +kernel)

end Deferring

open Deferring in
/-- The effects of a computation that defers an effect which defers another one are started in turn. -/
theorem inTurn_of_nested :
    InTurn Machine.bare nestedDeeds.1 1 ∧ .left ∈ life nestedDeeds.1 1 ∧ Unwinds [] (life nestedDeeds.1 1) [] := by
  have hcompleted : Completed nestedDeeds.1 1 := by
    have hplace : (life nestedDeeds.1 1)[8]? = some (.completed (.error boom)) := rfl
    exact ⟨_, List.mem_of_getElem? hplace⟩
  obtain ⟨inTurn, hsettled⟩ := inTurn_of_completed (History.settle Machine.bare (.blank 0) nested {} 20)
    (Act.not_mem_of_any uncut_nested rfl) Nat.one_pos hcompleted
    fun hdropped => Act.not_mem_of_any uncut_nested rfl (mem_of_mem_life hdropped)
  exact ⟨inTurn, hsettled settled_nested⟩

end EffectMachine
