import EffectMachine.Proofs.Acts.Frames

/-!
# Lives of frames

What a frame did is what its computation does.  The acts of one frame begin with its being pushed; from
then on they follow the body of the computation, which is resumed, does something, performs an effect, and
ends.

* `Plays` relates how far a computation has come to how far it comes by some acts.
* `lives` is the watch that follows the computations of frames.
* `Watched.life_eq` is what other modules use: the acts of a frame that was pushed with some computation
  are acts that this computation plays.
-/

namespace EffectMachine

/-- Whether an act is no step of the computation of the frame it is about. -/
def Act.isAside : Act → Bool
  | .deferred _ | .started _ | .noticed | .dropped | .left => true
  | act => act.tells

/-- How far a computation comes by the acts of its frame. -/
inductive Plays : Progress → List Act → Progress → Prop
  | done (progress : Progress) : Plays progress [] progress
  | aside {progress last : Progress} {act : Act} {acts : List Act} (haside : act.isAside = true)
      (rest : Plays progress acts last) : Plays progress (act :: acts) last
  | begin {body : Body} {outcome : Outcome} {acts : List Act} {last : Progress}
      (rest : Plays (.running body) acts last) : Plays (.fresh body) (.resumed outcome :: acts) last
  | resume {resume : Outcome → Body} {outcome : Outcome} {acts : List Act} {last : Progress}
      (rest : Plays (.running (resume outcome)) acts last) :
      Plays (.suspended resume) (.resumed outcome :: acts) last
  | act {action : Action} {resume : action.Reply → Body} {reply : action.Reply} {acts : List Act}
      {last : Progress} (rest : Plays (.running (resume reply)) acts last) :
      Plays (.running (.act action resume)) (.acted action reply :: acts) last
  | wait {action : Action} {resume : action.Reply → Body} {acts : List Act} {last : Progress}
      (rest : Plays (.running (.act action resume)) acts last) :
      Plays (.running (.act action resume)) (.waited action :: acts) last
  | perform {effect : Effect} {resume : Outcome → Body} {acts : List Act} {last : Progress}
      (rest : Plays (.suspended resume) acts last) :
      Plays (.running (.perform effect resume)) (.performed effect :: acts) last
  | complete {outcome : Outcome} {acts : List Act} {last : Progress} (rest : Plays .finished acts last) :
      Plays (.running (.done outcome)) (.completed outcome :: acts) last
  | giveUp {progress : Progress} {acts : List Act} {last : Progress} (hgoing : progress ≠ .finished)
      (rest : Plays .finished acts last) : Plays progress (.givenUp :: acts) last
  | vacate {acts : List Act} {last : Progress} (rest : Plays .finished acts last) :
      Plays .root (.vacated :: acts) last

namespace Plays

variable {first second third : Progress} {acts more : List Act}

/-- A computation plays on. -/
theorem append (hfirst : Plays first acts second) (hmore : Plays second more third) :
    Plays first (acts ++ more) third := by
  induction hfirst with
  | done progress => exact hmore
  | aside haside _ ih => exact .aside haside (ih hmore)
  | begin _ ih => exact .begin (ih hmore)
  | resume _ ih => exact .resume (ih hmore)
  | act _ ih => exact .act (ih hmore)
  | wait _ ih => exact .wait (ih hmore)
  | perform _ ih => exact .perform (ih hmore)
  | complete _ ih => exact .complete (ih hmore)
  | giveUp hgoing _ ih => exact .giveUp hgoing (ih hmore)
  | vacate _ ih => exact .vacate (ih hmore)

/-- Being pushed is no act that a computation plays. -/
theorem not_mem_pushed (plays : Plays first acts second) (computation : Computation)
    (tag : Option HandlerTag) : .pushed computation tag ∉ acts := by
  induction plays with
  | done progress => exact List.not_mem_nil
  | aside haside _ ih =>
      intro hmem
      rcases List.mem_cons.1 hmem with hhead | hrest
      · rw [← hhead] at haside
        cases haside
      · exact ih hrest
  | _ =>
      rename_i ih
      intro hmem
      rcases List.mem_cons.1 hmem with hhead | hrest
      · cases hhead
      · exact ih hrest

/-- A computation that played some acts was somewhere before the last of them. -/
theorem split (plays : Plays first (acts ++ more) third) :
    ∃ middle, Plays first acts middle ∧ Plays middle more third := by
  induction acts generalizing first with
  | nil => exact ⟨first, .done first, plays⟩
  | cons act acts ih =>
      cases plays with
      | aside haside rest => exact (ih rest).imp fun _ h => ⟨.aside haside h.1, h.2⟩
      | begin rest => exact (ih rest).imp fun _ h => ⟨.begin h.1, h.2⟩
      | resume rest => exact (ih rest).imp fun _ h => ⟨.resume h.1, h.2⟩
      | act rest => exact (ih rest).imp fun _ h => ⟨.act h.1, h.2⟩
      | wait rest => exact (ih rest).imp fun _ h => ⟨.wait h.1, h.2⟩
      | perform rest => exact (ih rest).imp fun _ h => ⟨.perform h.1, h.2⟩
      | complete rest => exact (ih rest).imp fun _ h => ⟨.complete h.1, h.2⟩
      | giveUp hgoing rest => exact (ih rest).imp fun _ h => ⟨.giveUp hgoing h.1, h.2⟩
      | vacate rest => exact (ih rest).imp fun _ h => ⟨.vacate h.1, h.2⟩

end Plays

/-- A markCanceled frame has come as far as before. -/
theorem Frame.markCanceled_progress (frame : Frame) : frame.markCanceled.progress = frame.progress := by
  unfold Frame.markCanceled
  split <;> rfl

/-- What an act makes of the computation of the top frame. -/
theorem Frame.Does.plays {frame after : Frame} {act : Act} (hdoes : frame.Does act after) :
    Plays frame.progress [act] after.progress := by
  cases hdoes with
  | tell act result htells =>
      refine .aside ?_ (.done _)
      cases act <;> first | exact htells | cases htells
  | defer effect => exact .aside rfl (.done _)
  | start effect defers hfinished hdefers => exact .aside rfl (.done _)
  | notice =>
      rw [frame.markCanceled_progress]
      exact .aside rfl (.done _)
  | begin body hfresh hkept =>
      rw [hfresh]
      exact .begin (.done _)
  | resume resume hsuspended hkept =>
      rw [hsuspended]
      exact .resume (.done _)
  | act action resume reply hrunning =>
      rw [hrunning]
      exact .act (.done _)
  | wait action resume hrunning =>
      rw [hrunning]
      exact .wait (.done _)
  | perform effect resume hrunning =>
      rw [hrunning]
      exact .perform (.done _)
  | complete outcome hrunning =>
      rw [hrunning]
      exact .complete (.done _)
  | giveUp hfinished hdue =>
      refine .giveUp (fun hprogress => ?_) (.done _)
      rw [Frame.isFinished, hprogress] at hfinished
      cases hfinished
  | vacate hroot =>
      rw [hroot]
      exact .vacate (.done _)

/-- Other frames do nothing to a computation. -/
theorem Frame.Beside.progress_eq {frame after : Frame} {act : Act} (hbeside : frame.Beside act after) :
    after.progress = frame.progress := by
  cases hbeside with
  | marked => exact frame.markCanceled_progress
  | _ => rfl

/-- The acts of a frame are those of its computation, which has come so far. -/
def Lives (acts : List Act) (number : Nat) (progress : Progress) : Prop :=
  ∃ computation tag later, life acts number = .pushed computation tag :: later ∧
    Plays (.fresh computation.body) later progress

/-- A life goes on with an act of its frame. -/
theorem Lives.concat {acts : List Act} {act : Act} {number : Nat} {progress last : Progress}
    (hactor : (Roll.after acts).actor act = number) (hplays : Plays progress [act] last)
    (lives : Lives acts number progress) : Lives (acts ++ [act]) number last := by
  obtain ⟨computation, tag, later, hlife, hlater⟩ := lives
  refine ⟨computation, tag, later ++ [act], ?_, hlater.append hplays⟩
  rw [life_concat, hlife, if_pos hactor]
  rfl

/-- A life does not go on with an act of another frame. -/
theorem Lives.stay {acts : List Act} {act : Act} {number : Nat} {progress : Progress}
    (hother : (Roll.after acts).actor act ≠ number) (lives : Lives acts number progress) :
    Lives (acts ++ [act]) number progress := by
  obtain ⟨computation, tag, later, hlife, hlater⟩ := lives
  refine ⟨computation, tag, later, ?_, hlater⟩
  rw [life_concat, if_neg hother, List.append_nil]
  exact hlife

/-- Follows the computations of frames. -/
def lives : Watch where
  kept := fun acts number frame => Lives acts number frame.progress
  gone := fun acts number => ∃ progress, Lives acts number progress
  fresh := fun computation tag hunborn hnext =>
    ⟨computation, tag, [], life_pushed hunborn hnext, .done _⟩
  own := fun _ hactor _ hdoes lives => lives.concat hactor hdoes.plays
  beside := fun _ hother _ hbeside lives => hbeside.progress_eq ▸ lives.stay hother
  drop := fun _ hactor lives => ⟨_, lives.concat hactor (.aside rfl (.done _))⟩
  leave := fun _ hactor _ _ lives => ⟨_, lives.concat hactor (.aside rfl (.done _))⟩
  stay := fun hother ⟨progress, lives⟩ => ⟨progress, lives.stay hother⟩

namespace Watched

variable {acts : List Act} {run : Run} {number : Nat}

/-- Every frame has lived. -/
theorem exists_lives (watched : Watched lives acts run) (hpos : 0 < number)
    (hnext : number < (Roll.after acts).next) : ∃ progress, Lives acts number progress := by
  by_cases hlive : number ∈ (Roll.after acts).live
  · obtain ⟨frame, _, hkept⟩ := watched.kept.exists_of_mem hlive hpos
    exact ⟨frame.progress, hkept⟩
  · exact watched.gone number hpos hnext hlive

/-- The acts of a frame that was pushed with some computation are acts that this computation plays. -/
theorem life_eq {computation : Computation} {tag : Option HandlerTag} (watched : Watched lives acts run)
    (hpushed : .pushed computation tag ∈ life acts number) :
    ∃ later progress, life acts number = .pushed computation tag :: later ∧
      Plays (.fresh computation.body) later progress := by
  have hnext : number < (Roll.after acts).next := by
    by_contra hunborn
    rw [watched.tracks.unborn number (by omega)] at hpushed
    cases hpushed
  obtain ⟨progress, other, otherTag, later, hlife, hplays⟩ :=
    watched.exists_lives (pos_of_pushed hpushed) hnext
  rw [hlife] at hpushed
  rcases List.mem_cons.1 hpushed with hhead | hlater
  · cases hhead
    exact ⟨later, progress, hlife, hplays⟩
  · exact absurd hlater (hplays.not_mem_pushed computation tag)

end Watched
end EffectMachine
