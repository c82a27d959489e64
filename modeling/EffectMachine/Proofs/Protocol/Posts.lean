import EffectMachine.Proofs.Protocol.Stages

/-!
# Following frames through the protocol

Frames are numbered in the order they are pushed, and the protocol gives each frame on the stack a stage.
What holds of a new frame and is kept by everything that can happen to its stage holds of every frame.

* `Obeys.tracks` says that acts which keep to the protocol tell who is on the stack.
* `StageWatch` is a property of a numbered frame and its stage that can be followed, and `Obeys.kept` says
  that it holds of all frames.
-/

namespace EffectMachine

/-- Acts that keep to the protocol tell who is on a stack of this height. -/
theorem Obeys.tracks {acts : List Act} {stages : List Stage} (obeys : Obeys acts stages) {run : Run}
    (hheight : run.stack.below.length = stages.length) : Tracks acts run := by
  induction obeys generalizing run with
  | start => exact .initial (List.eq_nil_of_length_eq_zero hheight)
  | @act acts act stages after obeys hprotocol ih =>
      -- Only the height of the stack matters, so any stack of the height before the act will do.
      have tracks := @ih
        { run with stack := { run.stack with below := List.replicate stages.length run.stack.top } } (by simp)
      have hlength := tracks.length
      rw [show (List.replicate stages.length run.stack.top).length = stages.length from by simp] at hlength
      refine ⟨?_, ?_, tracks.unborn_concat act⟩
      · rw [Roll.after_concat]
        cases hprotocol with
        | push hwaits computation tag => exact tracks.sound.push computation tag
        | drop hwaits => exact tracks.sound.pop (by rw [hlength]; simp)
        | leave hwaits outcome => exact tracks.sound.pop (by rw [hlength]; simp)
        | top hdoes stages => cases hdoes <;> exact tracks.sound
        | _ => exact tracks.sound
      · rw [Roll.after_concat, hheight]
        cases hprotocol with
        | push hwaits computation tag => simp [Roll.apply, hlength]
        | drop hwaits => simp [Roll.apply, hlength]
        | leave hwaits outcome => simp [Roll.apply, hlength]
        | notice hidle => simpa [Roll.apply] using hlength
        | top hdoes stages => cases hdoes <;> exact hlength
        | _ => exact hlength

/-- A frame is directly below the top one. -/
def Beneath (acts : List Act) (number : Nat) : Prop :=
  ∃ top rest, (Roll.after acts).live = top :: number :: rest

/-- Only one frame is directly below the top one. -/
theorem Beneath.eq {acts : List Act} {number top second : Nat} {rest : List Nat}
    (hbeneath : Beneath acts number) (hlive : (Roll.after acts).live = top :: second :: rest) :
    number = second := by
  obtain ⟨_, _, hother⟩ := hbeneath
  rw [hlive] at hother
  simp only [List.cons.injEq] at hother
  exact hother.2.1.symm

/-- A property of frames that can be followed through the protocol. -/
structure StageWatch where
  kept : List Act → Nat → Stage → Prop
  fresh : ∀ {acts : List Act} {number : Nat} (computation : Computation) (tag : Option HandlerTag),
    (Roll.after acts).next = number → life acts number = [] →
    kept (acts ++ [.pushed computation tag]) number .fresh
  own : ∀ {acts : List Act} {act : Act} {number : Nat} {stage after : Stage},
    (Roll.after acts).live.head? = some number → stage.Does act after → kept acts number stage →
    kept (acts ++ [act]) number after
  take : ∀ {acts : List Act} {number : Nat} {stage : Stage} (error : Error),
    (Roll.after acts).live.head? = some number → stage.Waits → kept acts number stage →
    kept (acts ++ [.caught error]) number (stage.took error)
  rob : ∀ {acts : List Act} {number : Nat} {error : Error}, Beneath acts number →
    kept acts number (.ended (.error error)) → kept (acts ++ [.caught error]) number (.ended (.ok .null))
  receive : ∀ {acts : List Act} {number : Nat} {stage : Stage} {outcome : Outcome} {stages : List Stage},
    Beneath acts number → Obeys acts (.ended outcome :: stage :: stages) → stage.Waits →
    kept acts number stage → kept (acts ++ [.left]) number (stage.told outcome)
  mark : ∀ {acts : List Act} {number : Nat} {stage : Stage}, number ∈ (Roll.after acts).live →
    stage ≠ .running → kept acts number stage → kept (acts ++ [.noticed]) number stage.marked
  stay : ∀ {acts : List Act} {act : Act} {number : Nat} {stage : Stage}, number ∈ (Roll.after acts).live →
    (Roll.after acts).actor act ≠ number → act ≠ .noticed →
    (Beneath acts number → act ≠ .left ∧ ∀ error, act ≠ .caught error) →
    kept acts number stage → kept (acts ++ [act]) number stage

/-- Who is on the stack, with the stages of the frames. -/
def posts (acts : List Act) (stages : List Stage) : List (Nat × Stage) :=
  (Roll.after acts).live.zip stages

namespace Obeys

variable {acts : List Act} {act : Act} {stages after : List Stage}

/-- Who is on the stack is known from the acts. -/
theorem exists_tracks (obeys : Obeys acts stages) : ∃ run, Tracks acts run ∧ run.stack.below.length = stages.length :=
  let run : Run :=
    { stack := { context := default, signal := none, below := stages.map fun _ => .root }, host := {} }
  have hheight : run.stack.below.length = stages.length := List.length_map _
  ⟨run, obeys.tracks hheight, hheight⟩

/-- The numbers of the frames fall from the top down. -/
theorem sound (obeys : Obeys acts stages) : (Roll.after acts).Sound :=
  have ⟨_, tracks, _⟩ := obeys.exists_tracks
  tracks.sound

/-- There is one number for each stage, and one for the sentinel. -/
theorem length_live (obeys : Obeys acts stages) : (Roll.after acts).live.length = stages.length + 1 := by
  obtain ⟨run, tracks, hheight⟩ := obeys.exists_tracks
  rw [tracks.length, hheight]

/-- A number that was not yet given out has done nothing. -/
theorem unborn (obeys : Obeys acts stages) : life acts (Roll.after acts).next = [] :=
  have ⟨_, tracks, _⟩ := obeys.exists_tracks
  tracks.unborn _ (Nat.le_refl _)

/-- The number of the top frame. -/
theorem live_eq {top : Stage} (obeys : Obeys acts (top :: stages)) :
    ∃ number rest, (Roll.after acts).live = number :: rest ∧ rest.length = stages.length + 1 ∧
      (∀ other ∈ rest, other < number) := by
  have hlength := obeys.length_live
  have hfalling := obeys.sound.falling
  cases hlive : (Roll.after acts).live with
  | nil => simp [hlive] at hlength
  | cons number rest =>
      rw [hlive] at hlength hfalling
      exact ⟨number, rest, rfl, by simpa using hlength, (List.pairwise_cons.1 hfalling).1⟩

/-- The numbers of the two frames on top. -/
theorem live_eq_two {top second : Stage} (obeys : Obeys acts (top :: second :: stages)) :
    ∃ above number rest, (Roll.after acts).live = above :: number :: rest ∧ number < above ∧
      ∀ other ∈ rest, other < number := by
  obtain ⟨above, below, hlive, hlength, hless⟩ := obeys.live_eq
  cases below with
  | nil => simp at hlength
  | cons number rest =>
      have hfalling := obeys.sound.falling
      rw [hlive] at hfalling
      exact ⟨above, number, rest, hlive, hless number List.mem_cons_self,
        (List.pairwise_cons.1 (List.pairwise_cons.1 hfalling).2).1⟩

/-- What can be followed is kept for the frames that an act is not about. -/
theorem kept_stay (watch : StageWatch) {numbers : List Nat} {others : List Stage} (hnotice : act ≠ .noticed)
    (hnumbers : ∀ number ∈ numbers, number ∈ (Roll.after acts).live ∧ (Roll.after acts).actor act ≠ number ∧
      (Beneath acts number → act ≠ .left ∧ ∀ error, act ≠ .caught error))
    (kept : ∀ post ∈ numbers.zip others, watch.kept acts post.1 post.2) :
    ∀ post ∈ numbers.zip others, watch.kept (acts ++ [act]) post.1 post.2 := by
  intro post hpost
  obtain ⟨hlive, hactor, hbeneath⟩ := hnumbers post.1 (List.of_mem_zip hpost).1
  exact watch.stay hlive hactor hnotice hbeneath (kept post hpost)

/-- What can be followed holds of all frames on the stack. -/
theorem kept (watch : StageWatch) (obeys : Obeys acts stages) :
    ∀ post ∈ posts acts stages, watch.kept acts post.1 post.2 := by
  induction obeys with
  | start => simp [posts]
  | @act acts act stages after obeys hprotocol ih =>
      unfold posts at ih ⊢
      rw [Roll.after_concat]
      cases hprotocol with
      | baseDefer | baseAnswer | baseFail | baseFork => simp
      | push hwaits computation tag =>
          refine List.forall_mem_cons.2 ⟨watch.fresh computation tag rfl obeys.unborn, ?_⟩
          refine kept_stay watch (by simp) (fun number hnumber => ⟨hnumber, ?_, by simp⟩) ih
          exact Nat.ne_of_gt (obeys.sound.bounded number hnumber)
      | drop hwaits =>
          obtain ⟨top, rest, hlive, -, hless⟩ := obeys.live_eq
          rw [hlive] at ih
          simp only [Roll.apply, hlive, List.tail_cons]
          refine kept_stay watch (by simp) (fun number hnumber => ⟨?_, ?_, by simp⟩)
            fun post hpost => ih post (List.mem_cons_of_mem _ hpost)
          · exact hlive ▸ List.mem_cons_of_mem _ hnumber
          · simpa [Roll.actor, hlive] using Nat.ne_of_gt (hless number hnumber)
      | @leave stages hwaits outcome =>
          cases stages with
          | nil => simp
          | cons stage stages =>
              obtain ⟨above, number, rest, hlive, habove, hless⟩ := obeys.live_eq_two
              rw [hlive] at ih
              simp only [Roll.apply, hlive, List.tail_cons, List.modifyHead_cons, List.zip_cons_cons,
                List.forall_mem_cons] at ih ⊢
              refine ⟨watch.receive ⟨above, rest, hlive⟩ obeys (hwaits _ rfl) ih.2.1, ?_⟩
              refine kept_stay watch (by simp) (fun other hother => ⟨?_, ?_, fun hbeneath => ?_⟩) ih.2.2
              · exact hlive ▸ List.mem_cons_of_mem _ (List.mem_cons_of_mem _ hother)
              · have hlow := hless other hother
                simp only [Roll.actor, hlive, List.headD_cons]
                omega
              · have hlow := hless other hother
                have hsame := hbeneath.eq hlive
                omega
      | «catch» hwaits error stages =>
          obtain ⟨above, number, rest, hlive, habove, hless⟩ := obeys.live_eq_two
          rw [hlive] at ih
          simp only [Roll.apply, hlive, List.zip_cons_cons, List.forall_mem_cons] at ih ⊢
          refine ⟨watch.take error (by simp [hlive]) hwaits ih.1, watch.rob ⟨above, rest, hlive⟩ ih.2.1, ?_⟩
          refine kept_stay watch (by simp) (fun other hother => ⟨?_, ?_, fun hbeneath => ?_⟩) ih.2.2
          · exact hlive ▸ List.mem_cons_of_mem _ (List.mem_cons_of_mem _ hother)
          · have hlow := hless other hother
            simp only [Roll.actor, hlive, List.headD_cons]
            omega
          · have hlow := hless other hother
            have hsame := hbeneath.eq hlive
            omega
      | notice hidle =>
          simp only [Roll.apply, List.zip_map_right, List.forall_mem_map]
          intro post hpost
          have hmem := List.of_mem_zip hpost
          exact watch.mark hmem.1 (fun hrunning => hidle (hrunning ▸ hmem.2)) (ih post hpost)
      | @top stage later act hdoes stages =>
          obtain ⟨number, rest, hlive, -, hless⟩ := obeys.live_eq
          rw [hlive] at ih
          have happly : (Roll.after acts).apply act = Roll.after acts := by cases hdoes <;> rfl
          have hactor : (Roll.after acts).actor act = number := by cases hdoes <;> simp [Roll.actor, hlive]
          simp only [happly, hlive, List.zip_cons_cons, List.forall_mem_cons] at ih ⊢
          refine ⟨watch.own (by simp [hlive]) hdoes ih.1, ?_⟩
          refine kept_stay watch (by cases hdoes <;> simp) (fun other hother => ⟨?_, ?_, fun _ => ?_⟩) ih.2
          · exact hlive ▸ List.mem_cons_of_mem _ hother
          · have hlow := hless other hother
            omega
          · cases hdoes <;> simp

/-- What can be followed holds of the top frame. -/
theorem kept_top (watch : StageWatch) {top : Stage} (obeys : Obeys acts (top :: stages)) {number : Nat}
    (hhead : (Roll.after acts).live.head? = some number) : watch.kept acts number top := by
  obtain ⟨rest, hlive⟩ := List.head?_eq_some_iff.1 hhead
  exact obeys.kept watch (number, top) (by simp [posts, hlive])

end Obeys
end EffectMachine
