import EffectMachine.Proofs.Acts.Basic
import Mathlib.Data.List.Induction

/-!
# Numbered frames

Frames come and go, and a frame that has left may be followed by another at the same height.  To tell
them apart over a whole history of acts, the frames of a stack are numbered in the order they are pushed,
from one on; zero is the sentinel.

* `Roll` is who is on the stack: the numbers of its frames, the top one first.
* `life acts number` are the acts of one frame, in order.
* `Roll.Sound` says that the numbers fall from the top down to the sentinel.
* `Tracks` says so of the roll after some acts, and that it has one number for each frame of the run; `Tracks.does` says
  that every act keeps this.
-/

namespace EffectMachine

/-- Who is on a stack. -/
structure Roll where
  /-- The number of the next frame. -/
  next : Nat := 1
  /-- The numbers of the frames, the top one first; the sentinel is zero. -/
  live : List Nat := [0]

namespace Roll

/-- Who is on the stack after an act. -/
def apply (roll : Roll) : Act → Roll
  | .pushed _ _ => { next := roll.next + 1, live := roll.next :: roll.live }
  | .dropped | .left => { roll with live := roll.live.tail }
  | _ => roll

/-- The frame that an act concerns: the one that is pushed, or else the top one. -/
def actor (roll : Roll) : Act → Nat
  | .pushed _ _ => roll.next
  | _ => roll.live.headD 0

/-- Who is on the stack after some acts of a new stack. -/
def after (acts : List Act) : Roll :=
  acts.foldl apply {}

@[simp] theorem after_nil : after [] = {} :=
  rfl

@[simp] theorem after_concat (acts : List Act) (act : Act) :
    after (acts ++ [act]) = (after acts).apply act := by
  simp [after]

/-- Numbers only grow. -/
theorem next_le_apply (roll : Roll) (act : Act) : roll.next ≤ (roll.apply act).next := by
  cases act <;> simp [apply]

/-- Numbers only grow. -/
theorem next_after_le_append (acts more : List Act) :
    (after acts).next ≤ (after (acts ++ more)).next := by
  induction more using List.reverseRecOn with
  | nil => simp
  | append_singleton more act ih =>
      rw [← List.append_assoc, after_concat]
      exact Nat.le_trans ih (next_le_apply _ _)

/-- Only the top frame leaves a stack. -/
theorem head_of_not_mem_apply {roll : Roll} {act : Act} {number : Nat} (hlive : number ∈ roll.live)
    (hgone : number ∉ (roll.apply act).live) : roll.live.head? = some number := by
  obtain ⟨head, rest, hcons⟩ := List.exists_cons_of_ne_nil (List.ne_nil_of_mem hlive)
  cases act with
  | pushed computation tag => exact absurd (List.mem_cons_of_mem _ hlive) hgone
  | dropped | left =>
      have habsent : number ∉ rest := by simpa [apply, hcons] using hgone
      rw [hcons] at hlive ⊢
      rcases List.mem_cons.1 hlive with hhead | hrest
      · rw [hhead]
        rfl
      · exact absurd hrest habsent
  | _ => exact absurd hlive hgone

/-- The numbers on a stack were given out. -/
theorem lt_next_after (acts : List Act) : ∀ number ∈ 0 :: (after acts).live, number < (after acts).next := by
  induction acts using List.reverseRecOn with
  | nil => simp
  | append_singleton acts act ih =>
      obtain ⟨hsentinel, hlive⟩ := List.forall_mem_cons.1 ih
      rw [after_concat]
      cases act with
      | pushed computation tag =>
          refine List.forall_mem_cons.2 ⟨Nat.succ_pos _, List.forall_mem_cons.2 ⟨Nat.lt_succ_self _, ?_⟩⟩
          exact fun number hmem => Nat.lt_succ_of_lt (hlive number hmem)
      | dropped | left =>
          exact List.forall_mem_cons.2 ⟨hsentinel, fun number hmem => hlive number (List.mem_of_mem_tail hmem)⟩
      | _ => exact ih

/-- An act concerns a frame whose number was given out, unless it pushes one. -/
theorem actor_lt_next (acts : List Act) {act : Act} (hpushed : ∀ computation tag, act ≠ .pushed computation tag) :
    (after acts).actor act < (after acts).next := by
  have hhead : (after acts).live.headD 0 ∈ 0 :: (after acts).live := by
    cases (after acts).live <;> simp
  cases act with
  | pushed computation tag => exact absurd rfl (hpushed computation tag)
  | _ => exact lt_next_after acts _ hhead

/-- The numbers of a stack fall from the top down to the sentinel, and the next one is greater. -/
structure Sound (roll : Roll) : Prop where
  falling : roll.live.Pairwise (· > ·)
  bounded : ∀ number ∈ roll.live, number < roll.next
  sentinel : roll.live.getLast? = some 0

theorem sound_initial : Sound {} where
  falling := by simp
  bounded := by simp
  sentinel := rfl

/-- Pushing a frame keeps the numbers in order. -/
theorem Sound.push {roll : Roll} (sound : roll.Sound) (computation : Computation)
    (tag : Option HandlerTag) : (roll.apply (.pushed computation tag)).Sound where
  falling := List.pairwise_cons.2 ⟨sound.bounded, sound.falling⟩
  bounded := by
    intro number hnumber
    rcases List.mem_cons.1 hnumber with rfl | hlive
    · exact Nat.lt_succ_self _
    · exact Nat.lt_succ_of_lt (sound.bounded number hlive)
  sentinel := by
    obtain ⟨head, rest, hlive⟩ := List.exists_cons_of_ne_nil
      (List.ne_nil_of_mem (List.mem_of_getLast? sound.sentinel))
    simp only [apply, hlive, List.getLast?_cons_cons]
    rw [← hlive]
    exact sound.sentinel

/-- Taking a frame off keeps the numbers in order, as long as it is not the sentinel. -/
theorem Sound.pop {roll : Roll} (sound : roll.Sound) (habove : 1 < roll.live.length) :
    Sound { roll with live := roll.live.tail } where
  falling := sound.falling.tail
  bounded := fun number hnumber => sound.bounded number (List.mem_of_mem_tail hnumber)
  sentinel := by
    have hsentinel := sound.sentinel
    revert habove hsentinel
    cases roll.live with
    | nil => simp
    | cons top rest =>
        cases rest with
        | nil => simp
        | cons second rest => simp

/-- The top frame of a stack that has frames above the sentinel is not the sentinel. -/
theorem Sound.top_pos {roll : Roll} (sound : roll.Sound) (habove : 1 < roll.live.length) :
    0 < roll.live.headD 0 := by
  have hfalling := sound.falling
  revert habove hfalling
  cases roll.live with
  | nil => simp
  | cons top rest =>
      cases rest with
      | nil => simp
      | cons second rest =>
          intro _ hfalling
          have habove := (List.pairwise_cons.1 hfalling).1 second List.mem_cons_self
          simp only [List.headD_cons]
          omega

end Roll

/-- Acts with the numbers of the frames they concern, given who is on the stack before. -/
def numbered : Roll → List Act → List (Nat × Act)
  | _, [] => []
  | roll, act :: acts => (roll.actor act, act) :: numbered (roll.apply act) acts

/-- The acts of one frame of a new stack. -/
def life (acts : List Act) (number : Nat) : List Act :=
  (numbered {} acts).filterMap fun entry => if entry.1 = number then some entry.2 else none

theorem numbered_append (roll : Roll) (acts more : List Act) :
    numbered roll (acts ++ more) = numbered roll acts ++ numbered (acts.foldl Roll.apply roll) more := by
  induction acts generalizing roll with
  | nil => rfl
  | cons act acts ih => simp [numbered, ih]

@[simp] theorem life_nil (number : Nat) : life [] number = [] :=
  rfl

/-- An act belongs to the life of the frame it concerns, and to no other. -/
theorem life_concat (acts : List Act) (act : Act) (number : Nat) :
    life (acts ++ [act]) number =
      life acts number ++ if (Roll.after acts).actor act = number then [act] else [] := by
  unfold life
  rw [numbered_append, List.filterMap_append]
  simp only [numbered, Roll.after]
  congr 1
  by_cases hactor : (acts.foldl Roll.apply {}).actor act = number <;> simp [hactor]

/-- All acts but pushing concern the top frame. -/
theorem Roll.actor_of_head {roll : Roll} {act : Act} {number : Nat} (hhead : roll.live.head? = some number)
    (hpushed : ∀ computation tag, act ≠ .pushed computation tag) : roll.actor act = number := by
  obtain ⟨rest, hlive⟩ := List.head?_eq_some_iff.1 hhead
  cases act <;> first | exact absurd rfl (hpushed _ _) | simp [actor, hlive]

/-- The act of a frame belongs to its life. -/
theorem life_of_head {acts : List Act} {act : Act} {number : Nat}
    (hhead : (Roll.after acts).live.head? = some number) (hpushed : ∀ computation tag, act ≠ .pushed computation tag) :
    life (acts ++ [act]) number = life acts number ++ [act] := by
  rw [life_concat, if_pos (Roll.actor_of_head hhead hpushed)]

/-- An act of another frame does not belong to the life of a frame. -/
theorem life_of_other {acts : List Act} {act : Act} {number : Nat} (hother : (Roll.after acts).actor act ≠ number) :
    life (acts ++ [act]) number = life acts number := by
  rw [life_concat, if_neg hother, List.append_nil]

/-- What a frame does after some acts is among the acts that follow. -/
theorem life_append (acts more : List Act) (number : Nat) :
    ∃ later, life (acts ++ more) number = life acts number ++ later ∧ later.Sublist more := by
  induction more using List.reverseRecOn with
  | nil => exact ⟨[], by simp, .refl _⟩
  | append_singleton more act ih =>
      obtain ⟨later, hlater, hsublist⟩ := ih
      rw [← List.append_assoc, life_concat, hlater, List.append_assoc]
      refine ⟨_, rfl, hsublist.append ?_⟩
      split
      · exact .refl _
      · exact List.nil_sublist _

/-- What a frame did stays what it did. -/
theorem life_prefix (acts more : List Act) (number : Nat) :
    ∃ later, life (acts ++ more) number = life acts number ++ later :=
  (life_append acts more number).imp fun _ h => h.1

theorem mem_life_append {acts : List Act} {number : Nat} {act : Act} (more : List Act)
    (hmem : act ∈ life acts number) : act ∈ life (acts ++ more) number := by
  obtain ⟨later, hlater⟩ := life_prefix acts more number
  rw [hlater]
  exact List.mem_append_left _ hmem

/-- What a frame does stands in its life. -/
theorem exists_life_of_split {acts before after : List Act} {act : Act} {number : Nat}
    (hacts : acts = before ++ act :: after) (hactor : (Roll.after before).actor act = number) :
    ∃ later, life acts number = life before number ++ act :: later := by
  obtain ⟨later, hlater⟩ := life_prefix (before ++ [act]) after number
  rw [life_concat, if_pos hactor] at hlater
  exact ⟨later, by rw [hacts, List.append_cons, hlater, List.append_assoc]; rfl⟩

/-- What a frame did was done. -/
theorem mem_of_mem_life {acts : List Act} {number : Nat} {act : Act} (hmem : act ∈ life acts number) :
    act ∈ acts := by
  have hacts (roll : Roll) (acts : List Act) : (numbered roll acts).map Prod.snd = acts := by
    induction acts generalizing roll with
    | nil => rfl
    | cons act acts ih => simp [numbered, ih]
  obtain ⟨entry, hentry, hown⟩ := List.mem_filterMap.1 hmem
  split at hown
  · cases hown
    rw [← hacts {} acts]
    exact List.mem_map_of_mem hentry
  · cases hown

/-- What a frame did was done while it was the one concerned. -/
theorem exists_of_mem_life {acts : List Act} {number : Nat} {act : Act} (hmem : act ∈ life acts number) :
    ∃ before after, acts = before ++ act :: after ∧ (Roll.after before).actor act = number := by
  induction acts using List.reverseRecOn with
  | nil => cases hmem
  | append_singleton acts last ih =>
      rw [life_concat] at hmem
      rcases List.mem_append.1 hmem with hearlier | hlast
      · obtain ⟨before, after, rfl, hactor⟩ := ih hearlier
        exact ⟨before, after ++ [last], by simp, hactor⟩
      · split at hlast
        · rw [List.mem_singleton.1 hlast]
          exact ⟨acts, [], rfl, ‹_›⟩
        · cases hlast

/-- Every act stands in the life of a frame. -/
theorem exists_life_of_mem {acts : List Act} {act : Act} (hmem : act ∈ acts) : ∃ number, act ∈ life acts number := by
  obtain ⟨before, after, rfl⟩ := List.append_of_mem hmem
  refine ⟨(Roll.after before).actor act, ?_⟩
  rw [List.append_cons]
  refine mem_life_append after ?_
  rw [life_concat, if_pos rfl]
  exact List.mem_append_right _ List.mem_cons_self

/-- A new frame has done nothing but being pushed. -/
theorem life_pushed {acts : List Act} {number : Nat} {computation : Computation} {tag : Option HandlerTag}
    (hunborn : life acts number = []) (hnext : (Roll.after acts).next = number) :
    life (acts ++ [.pushed computation tag]) number = [.pushed computation tag] := by
  rw [life_concat, hunborn, if_pos (show (Roll.after acts).actor (.pushed computation tag) = number from hnext)]
  rfl

/-- The sentinel is never pushed. -/
theorem pos_of_pushed {acts : List Act} {number : Nat} {computation : Computation}
    {tag : Option HandlerTag} (hpushed : .pushed computation tag ∈ life acts number) : 0 < number := by
  induction acts using List.reverseRecOn with
  | nil => cases hpushed
  | append_singleton acts act ih =>
      rw [life_concat] at hpushed
      rcases List.mem_append.1 hpushed with hearlier | hlast
      · exact ih hearlier
      · split at hlast
        · rename_i hactor
          rw [← List.mem_singleton.1 hlast] at hactor
          have hnext := Roll.next_after_le_append [] acts
          have hpos : 1 ≤ (Roll.after acts).next := hnext
          have hsame : (Roll.after acts).next = number := hactor
          omega
        · cases hlast

/-- A history of acts tells who is on the stack of a run: its frames are numbered in order, as many as
there are, and a number that was not yet given out has done nothing. -/
structure Tracks (acts : List Act) (run : Run) : Prop where
  sound : (Roll.after acts).Sound
  length : (Roll.after acts).live.length = run.stack.below.length + 1
  unborn : ∀ number, (Roll.after acts).next ≤ number → life acts number = []

namespace Tracks

variable {acts : List Act} {run next : Run} {act : Act}

/-- An empty history tells who is on a new stack. -/
theorem initial (hbelow : run.stack.below = []) : Tracks [] run where
  sound := Roll.sound_initial
  length := by simp [hbelow]
  unborn := fun _ _ => rfl

/-- Who is on a stack is no matter of the host. -/
theorem host (tracks : Tracks acts run) (host : Host) : Tracks acts { run with host } :=
  ⟨tracks.sound, tracks.length, tracks.unborn⟩

/-- The number of the top frame. -/
theorem top_mem (tracks : Tracks acts run) :
    (Roll.after acts).live.headD 0 ∈ (Roll.after acts).live := by
  have hlength := tracks.length
  cases hlive : (Roll.after acts).live with
  | nil => simp [hlive] at hlength
  | cons top rest => simp

/-- The frame that an act concerns has a number that is given out by then. -/
theorem actor_lt (tracks : Tracks acts run) (act : Act) :
    (Roll.after acts).actor act < (Roll.after (acts ++ [act])).next := by
  have hgrow := Roll.next_after_le_append acts [act]
  cases act with
  | pushed computation tag =>
      rw [Roll.after_concat]
      exact Nat.lt_succ_self _
  | _ => exact Nat.lt_of_lt_of_le (tracks.sound.bounded _ tracks.top_mem) hgrow

/-- A new number has done nothing after an act either. -/
theorem unborn_concat (tracks : Tracks acts run) (act : Act) (number : Nat)
    (hnext : (Roll.after (acts ++ [act])).next ≤ number) : life (acts ++ [act]) number = [] := by
  have hactor := tracks.actor_lt act
  have hgrow := Roll.next_after_le_append acts [act]
  rw [life_concat, tracks.unborn number (Nat.le_trans hgrow hnext), if_neg (by omega)]
  rfl

/-- Every act is accounted for. -/
theorem does (hdoes : run.Does act next) (tracks : Tracks acts run) : Tracks (acts ++ [act]) next := by
  have hunborn := tracks.unborn_concat act
  have hlength := tracks.length
  refine ⟨?_, ?_, hunborn⟩
  · rw [Roll.after_concat]
    cases hdoes with
    | push computation tag => exact tracks.sound.push computation tag
    | drop parent rest hbelow =>
        exact tracks.sound.pop (by rw [hlength, hbelow]; simp)
    | leave parent rest hbelow hfinished hdefers =>
        exact tracks.sound.pop (by rw [hlength, hbelow]; simp)
    | _ => exact tracks.sound
  · rw [Roll.after_concat]
    cases hdoes with
    | push computation tag => simp [Roll.apply, hlength, Run.push, Stack.push]
    | drop parent rest hbelow => simp [Roll.apply, hlength, hbelow]
    | leave parent rest hbelow hfinished hdefers => simp [Roll.apply, hlength, hbelow]
    | «catch» parent rest error hbelow hfinished herror =>
        simpa [Roll.apply, hbelow] using hlength
    | answer value =>
        unfold Run.answerTop
        split <;> exact hlength
    | fail error =>
        unfold Run.failTop
        split <;> exact hlength
    | fork effect hscheduled =>
        unfold Run.answerTop
        split <;> exact hlength
    | notice hcanceled hsignal => simpa [Roll.apply, Stack.markCanceled] using hlength
    | _ => exact hlength

/-- A frame that is gone does nothing more. -/
theorem actor_ne (tracks : Tracks acts run) (act : Act) {number : Nat} (hnext : number < (Roll.after acts).next)
    (hgone : number ∉ (Roll.after acts).live) : (Roll.after acts).actor act ≠ number := by
  intro hactor
  have htop := tracks.top_mem
  cases act with
  | pushed computation tag =>
      have hnew : (Roll.after acts).next = number := hactor
      omega
  | _ => exact hgone (hactor ▸ htop)

end Tracks
end EffectMachine
