import EffectMachine.Proofs.Acts.History
import Mathlib.Data.List.Forall2

/-!
# Acts, frame by frame

An act of a run pushes a frame, takes the top frame off, or changes the top frame; what it does to the
frames below is little.

* `Frame.Does` is what an act does to the top frame, `Frame.Beside` what it does to a frame below it.
* `FramesDo` puts the two together, and `Run.Does.frames` shows that every act is of this form.
* `Watch` is a property of frames that can be followed through a history: what is kept while a frame is on
  the stack, and what is left of it when it is gone.  `Watched.does` shows that a watch goes on with every
  act, and `History.watched` that it holds throughout a history.
-/

namespace EffectMachine

/-- Whether an act only tells the top frame something. -/
def Act.tells : Act → Bool
  | .answered _ | .failed _ | .caught _ | .forked _ => true
  | _ => false

namespace Frame

/-- What an act does to the top frame, if it neither pushes a frame nor takes it off. -/
inductive Does : Frame → Act → Frame → Prop
  | tell (frame : Frame) (act : Act) (result : Outcome) (htells : act.tells = true) :
      Does frame act { frame with result }
  | defer (frame : Frame) (effect : Effect) :
      Does frame (.deferred effect) { frame with defers := effect :: frame.defers }
  | start (frame : Frame) (effect : Effect) (defers : List Effect) (hfinished : frame.isFinished = true)
      (hdefers : frame.defers = effect :: defers) :
      Does frame (.started effect) { frame with defers }
  | notice (frame : Frame) : Does frame .noticed frame.markCanceled
  | begin (frame : Frame) (body : Body) (hfresh : frame.progress = .fresh body)
      (hkept : frame.cancellation ≠ .due) :
      Does frame (.resumed frame.result) { frame with progress := .running body, result := .ok .null }
  | resume (frame : Frame) (resume : Outcome → Body) (hsuspended : frame.progress = .suspended resume)
      (hkept : frame.cancellation ≠ .due) :
      Does frame (.resumed frame.result)
        { frame with progress := .running (resume frame.result), result := .ok .null }
  | act (frame : Frame) (action : Action) (resume : action.Reply → Body) (reply : action.Reply)
      (hrunning : frame.progress = .running (.act action resume)) :
      Does frame (.acted action reply)
        { frame with
          progress := .running (resume reply)
          answerable := frame.answerable ++ action.acquired reply }
  | wait (frame : Frame) (action : Action) (resume : action.Reply → Body)
      (hrunning : frame.progress = .running (.act action resume)) : Does frame (.waited action) frame
  | perform (frame : Frame) (effect : Effect) (resume : Outcome → Body)
      (hrunning : frame.progress = .running (.perform effect resume)) :
      Does frame (.performed effect) { frame with progress := .suspended resume }
  | complete (frame : Frame) (outcome : Outcome) (hrunning : frame.progress = .running (.done outcome)) :
      Does frame (.completed outcome) (frame.finish outcome)
  | giveUp (frame : Frame) (hfinished : frame.isFinished = false) (hdue : frame.cancellation = .due) :
      Does frame .givenUp ({ frame with cancellation := .applied }.finish (.ok .null))
  | vacate (frame : Frame) (hroot : frame.progress = .root) :
      Does frame .vacated (frame.finish (.ok .null))

/-- What an act does to a frame that it is not about. -/
inductive Beside : Frame → Act → Frame → Prop
  | same (frame : Frame) (act : Act) : Beside frame act frame
  | marked (frame : Frame) : Beside frame .noticed frame.markCanceled
  | received (frame : Frame) (result : Outcome) : Beside frame .left { frame with result }
  | robbed (frame : Frame) (error : Error) : Beside frame (.caught error) { frame with result := .ok .null }

/-- A frame may receive the outcome of the one above it. -/
theorem Beside.absorb (frame : Frame) (outcome : Outcome) : frame.Beside .left (frame.absorb outcome) := by
  unfold Frame.absorb
  split
  · split
    · exact .received _ _
    · exact .same _ _
  · exact .received _ _

/-- Such an act neither pushes a frame nor takes one off. -/
theorem Does.apply_eq {frame after : Frame} {act : Act} (hdoes : frame.Does act after) (roll : Roll) :
    roll.apply act = roll := by
  cases hdoes with
  | tell act result htells => cases act <;> first | rfl | cases htells
  | _ => rfl

/-- Such an act is about the top frame. -/
theorem Does.actor_eq {frame after : Frame} {act : Act} (hdoes : frame.Does act after) (roll : Roll) :
    roll.actor act = roll.live.headD 0 := by
  cases hdoes with
  | tell act result htells => cases act <;> first | rfl | cases htells
  | _ => rfl

end Frame

/-- The frames of a run, the top one first. -/
def Run.frames (run : Run) : List Frame :=
  run.stack.top :: run.stack.below

/-- What an act does to frames that it is not about. -/
abbrev BesideAll (frames : List Frame) (act : Act) (after : List Frame) : Prop :=
  List.Forall₂ (Frame.Beside · act ·) frames after

theorem besideAll_same (frames : List Frame) (act : Act) : BesideAll frames act frames := by
  induction frames with
  | nil => exact .nil
  | cons frame frames ih => exact .cons (.same frame act) ih

theorem besideAll_marked (frames : List Frame) :
    BesideAll frames .noticed (frames.map Frame.markCanceled) := by
  induction frames with
  | nil => exact .nil
  | cons frame frames ih => exact .cons (.marked frame) ih

/-- What an act does to the frames of a run, the top one first. -/
inductive FramesDo : List Frame → Act → List Frame → Prop
  | push (frames : List Frame) (computation : Computation) (tag : Option HandlerTag) :
      FramesDo frames (.pushed computation tag) (.ofComputation computation tag :: frames)
  | drop (top : Frame) (frames : List Frame) : FramesDo (top :: frames) .dropped frames
  | leave (top : Frame) {frames after : List Frame} (hfinished : top.isFinished = true)
      (hdefers : top.defers = []) (hbeside : BesideAll frames .left after) :
      FramesDo (top :: frames) .left after
  | top {top after : Frame} {act : Act} {frames others : List Frame} (hdoes : top.Does act after)
      (hbeside : BesideAll frames act others) : FramesDo (top :: frames) act (after :: others)

/-- Every act does what it does to the frames one by one. -/
theorem Run.Does.frames {run next : Run} {act : Act} (hdoes : run.Does act next) :
    FramesDo run.frames act next.frames := by
  have hsame := besideAll_same run.stack.below
  cases hdoes with
  | push computation tag => exact .push _ computation tag
  | drop parent rest hbelow =>
      rw [Run.frames, hbelow]
      exact .drop _ _
  | leave parent rest hbelow hfinished hdefers =>
      rw [Run.frames, hbelow]
      exact .leave _ hfinished hdefers (.cons (.absorb parent _) (besideAll_same rest _))
  | defer effect => exact .top (.defer _ effect) (hsame _)
  | start effect defers hbelow hfinished hdefers => exact .top (.start _ effect defers hfinished hdefers) (hsame _)
  | answer value =>
      unfold Run.answerTop
      split
      · exact .top (.tell _ _ _ rfl) (hsame _)
      · exact .top (.tell _ _ _ rfl) (hsame _)
  | fail error =>
      unfold Run.failTop
      split
      · exact .top (.tell _ _ _ rfl) (hsame _)
      · exact .top (.tell _ _ _ rfl) (hsame _)
  | fork effect hscheduled =>
      unfold Run.answerTop
      split
      · exact .top (.tell _ _ _ rfl) (hsame _)
      · exact .top (.tell _ _ _ rfl) (hsame _)
  | «catch» parent rest error hbelow hfinished herror =>
      rw [Run.frames, hbelow]
      exact .top (.tell _ _ _ rfl) (.cons (.robbed parent error) (besideAll_same rest _))
  | notice hcanceled hsignal => exact .top (.notice _) (besideAll_marked _)
  | begin body hfresh hkept => exact .top (.begin _ body hfresh hkept) (hsame _)
  | resume resume hsuspended hkept => exact .top (.resume _ resume hsuspended hkept) (hsame _)
  | act action resume host reply hrunning hreact =>
      exact .top (.act _ action resume reply hrunning) (hsame _)
  | wait action resume host occasions hrunning hreact =>
      exact .top (.wait _ action resume hrunning) (hsame _)
  | perform effect resume hrunning => exact .top (.perform _ effect resume hrunning) (hsame _)
  | complete outcome hrunning => exact .top (.complete _ outcome hrunning) (hsame _)
  | giveUp hfinished hdue => exact .top (.giveUp _ hfinished hdue) (hsame _)
  | vacate hroot => exact .top (.vacate _ hroot) (hsame _)

/-- A property of frames that can be followed through a history. -/
structure Watch where
  /-- What is known of a frame on the stack. -/
  kept : List Act → Nat → Frame → Prop
  /-- What is known of a frame that is gone. -/
  gone : List Act → Nat → Prop
  fresh : ∀ {acts : List Act} {number : Nat} (computation : Computation) (tag : Option HandlerTag),
    life acts number = [] → (Roll.after acts).next = number →
    kept (acts ++ [.pushed computation tag]) number (.ofComputation computation tag)
  own : ∀ {acts : List Act} {act : Act} {number : Nat} {frame after : Frame}, 0 < number →
    (Roll.after acts).actor act = number → number ∈ (Roll.after acts).live → frame.Does act after →
    kept acts number frame → kept (acts ++ [act]) number after
  beside : ∀ {acts : List Act} {act : Act} {number : Nat} {frame after : Frame}, 0 < number →
    (Roll.after acts).actor act ≠ number → number ∈ (Roll.after acts).live → frame.Beside act after →
    kept acts number frame → kept (acts ++ [act]) number after
  drop : ∀ {acts : List Act} {number : Nat} {frame : Frame}, 0 < number →
    (Roll.after acts).actor .dropped = number → kept acts number frame → gone (acts ++ [.dropped]) number
  leave : ∀ {acts : List Act} {number : Nat} {frame : Frame}, 0 < number →
    (Roll.after acts).actor .left = number → frame.isFinished = true → frame.defers = [] →
    kept acts number frame → gone (acts ++ [.left]) number
  stay : ∀ {acts : List Act} {act : Act} {number : Nat}, (Roll.after acts).actor act ≠ number →
    gone acts number → gone (acts ++ [act]) number

/-- What is known of the frames of a run, the top one first.  Nothing is of the sentinel. -/
abbrev Watch.Kept (watch : Watch) (acts : List Act) (numbers : List Nat) (frames : List Frame) : Prop :=
  List.Forall₂ (fun number frame => 0 < number → watch.kept acts number frame) numbers frames

/-- A watch has been kept through a history. -/
structure Watched (watch : Watch) (acts : List Act) (run : Run) : Prop where
  tracks : Tracks acts run
  kept : watch.Kept acts (Roll.after acts).live run.frames
  gone : ∀ number, 0 < number → number < (Roll.after acts).next → number ∉ (Roll.after acts).live →
    watch.gone acts number

/-- Frames that an act is not about are watched on. -/
theorem Watch.Kept.beside {watch : Watch} {acts : List Act} {act : Act} {numbers : List Nat}
    {frames after : List Frame} (kept : watch.Kept acts numbers frames)
    (hbeside : BesideAll frames act after)
    (hlive : ∀ number ∈ numbers, number ∈ (Roll.after acts).live ∧ (Roll.after acts).actor act ≠ number) :
    watch.Kept (acts ++ [act]) numbers after := by
  induction kept generalizing after with
  | nil =>
      cases hbeside
      exact .nil
  | cons hfirst _ ih =>
      cases hbeside with
      | cons hframe hrest =>
          obtain ⟨hmem, hother⟩ := hlive _ List.mem_cons_self
          exact .cons (fun hpos => watch.beside hpos hother hmem hframe (hfirst hpos))
            (ih hrest fun number hnumber => hlive number (List.mem_cons_of_mem _ hnumber))

/-- A frame on the stack is watched. -/
theorem Watch.Kept.exists_of_mem {watch : Watch} {acts : List Act} {numbers : List Nat}
    {frames : List Frame} {number : Nat} (kept : watch.Kept acts numbers frames)
    (hmem : number ∈ numbers) (hpos : 0 < number) : ∃ frame ∈ frames, watch.kept acts number frame := by
  induction kept with
  | nil => cases hmem
  | cons hfirst _ ih =>
      rcases List.mem_cons.1 hmem with rfl | hrest
      · exact ⟨_, List.mem_cons_self, hfirst hpos⟩
      · obtain ⟨frame, hframe, hkept⟩ := ih hrest
        exact ⟨frame, List.mem_cons_of_mem _ hframe, hkept⟩

namespace Watched

variable {watch : Watch} {acts : List Act} {run next : Run} {act : Act}

theorem initial (watch : Watch) (hbelow : run.stack.below = []) : Watched watch [] run where
  tracks := .initial hbelow
  kept := by
    rw [Run.frames, hbelow]
    exact .cons (fun hpos => absurd hpos (by simp)) .nil
  gone := by
    intro number hpos hnext
    simp at hnext
    omega

/-- A frame that is gone stays gone. -/
theorem gone_concat (watched : Watched watch acts run) (act : Act) {number : Nat} (hpos : 0 < number)
    (hnext : number < (Roll.after acts).next) (hgone : number ∉ (Roll.after acts).live) :
    watch.gone (acts ++ [act]) number :=
  watch.stay (watched.tracks.actor_ne act hnext hgone) (watched.gone number hpos hnext hgone)

/-- Frames below the top one are watched on. -/
theorem kept_below {head : Nat} {rest : List Nat} {frames after : List Frame} (tracks : Tracks acts run)
    (hlive : (Roll.after acts).live = head :: rest) (hactor : (Roll.after acts).actor act = head)
    (kept : watch.Kept acts rest frames) (hbeside : BesideAll frames act after) :
    watch.Kept (acts ++ [act]) rest after := by
  have hfalling := tracks.sound.falling
  rw [hlive] at hfalling
  refine kept.beside hbeside fun number hnumber => ⟨hlive ▸ List.mem_cons_of_mem _ hnumber, ?_⟩
  have hless := (List.pairwise_cons.1 hfalling).1 number hnumber
  omega

/-- What is known of the frames after an act. -/
theorem kept_concat {frames after : List Frame} (tracks : Tracks acts run)
    (kept : watch.Kept acts (Roll.after acts).live frames) (hframes : FramesDo frames act after) :
    watch.Kept (acts ++ [act]) (Roll.after (acts ++ [act])).live after := by
  rw [Roll.after_concat]
  cases hlive : (Roll.after acts).live with
  | nil =>
      have htop := tracks.top_mem
      rw [hlive] at htop
      cases htop
  | cons head rest =>
      have hhead : (Roll.after acts).live.headD 0 = head := by rw [hlive]; rfl
      cases hframes with
      | push _ computation tag =>
          refine .cons (fun _ => watch.fresh computation tag (tracks.unborn _ (Nat.le_refl _)) rfl) ?_
          refine kept.beside (besideAll_same _ _) fun number hnumber => ⟨hnumber, ?_⟩
          have hless := tracks.sound.bounded number hnumber
          show (Roll.after acts).next ≠ number
          omega
      | drop top frames =>
          rw [hlive] at kept
          cases kept with
          | cons hfirst hrest =>
              show watch.Kept _ (Roll.after acts).live.tail _
              rw [hlive]
              exact kept_below tracks hlive hhead hrest (besideAll_same _ _)
      | leave top hfinished hdefers hbeside =>
          rw [hlive] at kept
          cases kept with
          | cons hfirst hrest =>
              show watch.Kept _ (Roll.after acts).live.tail _
              rw [hlive]
              exact kept_below tracks hlive hhead hrest hbeside
      | top hdoes hbeside =>
          have hactor := (hdoes.actor_eq (Roll.after acts)).trans hhead
          rw [hdoes.apply_eq, hlive]
          rw [hlive] at kept
          cases kept with
          | cons hfirst hrest =>
              have hmem : head ∈ (Roll.after acts).live := hlive ▸ List.mem_cons_self
              exact .cons (fun hpos => watch.own hpos hactor hmem hdoes (hfirst hpos))
                (kept_below tracks hlive hactor hrest hbeside)

/-- What is known of the frame that an act takes off. -/
theorem gone_top {frames after : List Frame} {number : Nat}
    (kept : watch.Kept acts (Roll.after acts).live frames) (hframes : FramesDo frames act after)
    (hpos : 0 < number) (hhead : (Roll.after acts).live.head? = some number)
    (hpop : number ∉ (Roll.after (acts ++ [act])).live) : watch.gone (acts ++ [act]) number := by
  obtain ⟨rest, hlive⟩ : ∃ rest, (Roll.after acts).live = number :: rest := List.head?_eq_some_iff.1 hhead
  have hactor : (Roll.after acts).live.headD 0 = number := by rw [hlive]; rfl
  have hmem : number ∈ (Roll.after acts).live := hlive ▸ List.mem_cons_self
  rw [hlive] at kept
  rw [Roll.after_concat] at hpop
  cases hframes with
  | push _ computation tag => exact absurd (List.mem_cons_of_mem _ hmem) hpop
  | drop top frames =>
      cases kept with
      | cons hfirst hrest => exact watch.drop hpos hactor (hfirst hpos)
  | leave top hfinished hdefers hbeside =>
      cases kept with
      | cons hfirst hrest => exact watch.leave hpos hactor hfinished hdefers (hfirst hpos)
  | top hdoes hbeside =>
      rw [hdoes.apply_eq] at hpop
      exact absurd hmem hpop

/-- A number that is given out by an act but not to a frame on the stack was given out before. -/
theorem lt_of_concat {number : Nat} (hnext : number < (Roll.after (acts ++ [act])).next)
    (hgone : number ∉ (Roll.after (acts ++ [act])).live) : number < (Roll.after acts).next := by
  rw [Roll.after_concat] at hnext hgone
  cases act with
  | pushed computation tag =>
      have hless : number < (Roll.after acts).next + 1 := hnext
      have hother : number ≠ (Roll.after acts).next := fun hsame => hgone (hsame ▸ List.mem_cons_self)
      omega
  | _ => exact hnext

/-- A watch goes on with every act. -/
theorem does (hdoes : run.Does act next) (watched : Watched watch acts run) :
    Watched watch (acts ++ [act]) next where
  tracks := watched.tracks.does hdoes
  kept := kept_concat watched.tracks watched.kept hdoes.frames
  gone := by
    intro number hpos hnext hgone
    by_cases hlive : number ∈ (Roll.after acts).live
    · have hpop : number ∉ ((Roll.after acts).apply act).live := by
        rw [← Roll.after_concat]
        exact hgone
      exact gone_top watched.kept hdoes.frames hpos (Roll.head_of_not_mem_apply hlive hpop) hgone
    · exact watched.gone_concat act hpos (lt_of_concat hnext hgone) hlive

end Watched

namespace History

variable {machine : Machine} {context : Context} {signal : Option TaskId} {effect : Effect}
variable {acts : List Act} {run : Run}

/-- A watch is kept throughout a history. -/
theorem watched (history : History machine context signal effect acts run) (watch : Watch) :
    Watched watch acts run :=
  history.invariant (P := Watched watch) (fun _ => .initial watch rfl)
    (fun _ watched => ⟨watched.tracks.host _, watched.kept, watched.gone⟩) fun hdoes watched => watched.does hdoes

end History
end EffectMachine
