import EffectMachine.Proofs.Direct.Driver

/-!
# Frames of directly evaluated computations

What direct evaluation looks like on a stack.  A computation that is evaluated at some site has a frame;
what is local to it is in that frame, but for the outcome of its performer, which is in the frame below.

* `Direct.Post` is where on a stack a computation is evaluated, `Direct.Post.moment` the stack at some moment of its
  evaluation, and `Direct.Post.Holds` says that a site describes a post.
* `Direct.Post.performing` is the stack while an effect is serviced, `Direct.Post.received` once its outcome is there.
-/

namespace EffectMachine
namespace Direct

/-- The frames below a computation, given the outcome with which its performer unwinds, if it does. -/
def plug : List Frame → Option Outcome → List Frame
  | frame :: rest, some result => { frame with result } :: rest
  | frames, _ => frames

@[simp] theorem plug_nil (around : Option Outcome) : plug [] around = [] := by
  cases around <;> rfl

@[simp] theorem plug_none (frames : List Frame) : plug frames none = frames := by
  cases frames <;> rfl

/-- A frame whose computation goes on has not finished. -/
theorem isFinished_of_ne {frame : Frame} (hprogress : frame.progress ≠ .finished) :
    frame.isFinished = false := by
  unfold Frame.isFinished
  split
  · rename_i hfinished
    exact absurd hfinished hprogress
  · rfl

/-- Where on a stack a computation is evaluated. -/
structure Post where
  /-- The name of the computation, if it has one. -/
  name : Option String
  tag : Option HandlerTag
  below : List Frame

namespace Post

/-- The frame of a computation that is evaluated. -/
def frame (post : Post) (loc : Local) (progress : Progress) (result : Outcome) : Frame where
  progress
  name := post.name
  tag := post.tag
  result
  defers := loc.defers
  answerable := loc.answerable

/-- The stack of a computation that is evaluated, with its host. -/
def run (setting : Setting) (post : Post) (loc : Local) (progress : Progress) (result : Outcome) : Run where
  stack :=
    { context := setting.context
      signal := none
      top := post.frame loc progress result
      below := plug post.below loc.around }
  host := loc.host

/-- The moment at which a computation is evaluated. -/
def moment (setting : Setting) (post : Post) (loc : Local) (progress : Progress) (result : Outcome) :
    Moment where
  run := post.run setting loc progress result
  turns := loc.turns

/-- A stack on which a computation services an effect of the present one, which has come as far as given
unless it has ended. -/
def performing (setting : Setting) (post : Post) (progress : Progress) (loc : Local) : Run :=
  match loc.ended with
  | none => post.run setting loc progress (.ok .null)
  | some result => post.run setting loc .finished result

/-- The moment at which finished frames are taken off. -/
def unwinding (setting : Setting) (post : Post) (loc : Local) (result : Outcome) : Moment where
  run := setting.machine.unwind (post.run setting loc .finished result)
  turns := loc.turns

/-- The moment at which a computation has received the outcome of its effect.  If it has ended, it goes on
unwinding. -/
def received (setting : Setting) (post : Post) (progress : Progress) (outcome : Outcome) (loc : Local) :
    Moment :=
  match (loc.absorb outcome).ended with
  | none => post.moment setting loc progress outcome
  | some result => post.unwinding setting (loc.absorb outcome) result

/-- The post of a computation that services an effect of the present one. -/
def inner (setting : Setting) (post : Post) (progress : Progress) (loc : Local) (computation : Computation)
    (tag : Option HandlerTag) : Post where
  name := computation.name
  tag
  below :=
    (post.performing setting progress loc).stack.top :: (post.performing setting progress loc).stack.below

/-- What a computation at a post is called. -/
def label (post : Post) : String :=
  ({ progress := .finished, name := post.name, tag := post.tag } : Frame).label

/-- A site describes a post. -/
structure Holds (post : Post) (site : Site) (around : Option Outcome) : Prop where
  tag : site.tag = post.tag
  labels : site.labels = (post.label :: post.below.map Frame.label).dropLast
  /-- There is an outcome around just when the performer has ended. -/
  around : around.isSome = post.below.head?.any Frame.isFinished

/-- Only whether the performer has ended matters. -/
theorem Holds.congr {post : Post} {site : Site} {around other : Option Outcome}
    (holds : post.Holds site around) (hsame : other.isSome = around.isSome) : post.Holds site other :=
  ⟨holds.tag, holds.labels, hsame.trans holds.around⟩

section Shape

variable (setting : Setting) {post : Post} {site : Site} {loc : Local} (progress : Progress)
variable (result : Outcome)

@[simp] theorem map_label_plug (frames : List Frame) (around : Option Outcome) :
    (plug frames around).map Frame.label = frames.map Frame.label := by
  cases frames with
  | nil => rfl
  | cons frame rest =>
      cases around with
      | none => rfl
      | some result => rfl

theorem plug_ne_nil {frames : List Frame} (hfull : frames ≠ []) (around : Option Outcome) :
    plug frames around ≠ [] := by
  cases frames with
  | nil => exact absurd rfl hfull
  | cons frame rest =>
      cases around with
      | none => simp
      | some result => simp [plug]

/-- The labels of a stack are those of the site. -/
theorem Holds.labels_run (holds : post.Holds site loc.around) :
    (post.run setting loc progress result).stack.labels = site.labels := by
  rw [holds.labels]
  show ((post.frame loc progress result :: plug post.below loc.around).dropLast).map Frame.label = _
  rw [List.map_dropLast, List.map_cons, map_label_plug]
  rfl

/-- A stack is as high as there are labels at the site. -/
theorem Holds.height_run (holds : post.Holds site loc.around) :
    (post.run setting loc progress result).stack.height = site.labels.length := by
  rw [← Stack.labels_length, holds.labels_run setting progress result]

/-- While a computation services an effect, its performer has not gone on. -/
theorem performing_eq (post : Post) (loc : Local) : ∃ stage result,
    post.performing setting progress loc = post.run setting loc stage result := by
  unfold performing
  cases loc.ended with
  | none => exact ⟨_, _, rfl⟩
  | some result => exact ⟨_, _, rfl⟩

/-- While a computation services an effect, the host is that of its performer. -/
@[simp] theorem host_performing (post : Post) (loc : Local) :
    (post.performing setting progress loc).host = loc.host := by
  unfold performing
  cases loc.ended <;> rfl

theorem performing_withHost (post : Post) (loc : Local) (host : Host) :
    { post.performing setting progress loc with host } =
      post.performing setting progress { loc with host } := by
  obtain ⟨_, _, _, _, ended, _⟩ := loc
  cases ended <;> rfl

theorem deferOnTop_performing (post : Post) (loc : Local) (effect : Effect) :
    (post.performing setting progress loc).deferOnTop effect =
      post.performing setting progress { loc with defers := effect :: loc.defers } := by
  obtain ⟨_, _, _, _, ended, _⟩ := loc
  cases ended <;> rfl

/-- A delegation goes on where the site says. -/
theorem Holds.delegation {setting : Setting} {progress : Progress} (holds : post.Holds site loc.around)
    (effect : Effect) :
    Machine.delegation (post.performing setting progress loc) effect = site.delegation effect := by
  obtain ⟨stage, result, hrun⟩ := performing_eq setting progress post loc
  rw [hrun, Machine.delegation, Site.delegation, holds.tag]
  rfl

/-- The frame of a computation that services an effect is put on top of that of its performer. -/
theorem push_performing (post : Post) (loc : Local) (computation : Computation)
    (tag : Option HandlerTag) :
    { run := (post.performing setting progress loc).push computation tag, turns := loc.turns } =
      (post.inner setting progress loc computation tag).moment setting loc.inner (.fresh computation.body)
        (.ok .null) := by
  obtain ⟨_, _, _, _, ended, _⟩ := loc
  cases ended <;> rfl

/-- The site of a computation that services an effect describes its post. -/
theorem Holds.inner {progress : Progress} (holds : post.Holds site loc.around)
    (hprogress : progress ≠ .finished) (computation : Computation) (tag : Option HandlerTag) :
    (post.inner setting progress loc computation tag).Holds (site.inner computation tag) loc.ended where
  tag := rfl
  labels := by
    obtain ⟨stage, result, hrun⟩ := performing_eq setting progress post loc
    rw [Post.inner, hrun, Site.inner, holds.labels]
    show _ = ((Frame.ofComputation computation tag).label :: post.label ::
      (plug post.below loc.around).map Frame.label).dropLast
    rw [map_label_plug]
    rfl
  around := by
    unfold Post.inner performing
    cases loc.ended with
    | none => exact (isFinished_of_ne hprogress).symm
    | some result => rfl

end Shape

/-! ## Steps -/

section Steps

variable {setting : Setting} {post : Post} {site : Site} {loc : Local}

theorem goes_moment (setting : Setting) (loc : Local) (hbelow : post.below ≠ []) (progress : Progress) (result : Outcome) :
    (post.moment setting loc progress result).Goes :=
  plug_ne_nil hbelow _

/-- A new computation begins. -/
theorem next_fresh (code : Body) (result : Outcome) :
    setting.next (post.moment setting loc (.fresh code) result) =
      post.moment setting loc (.running code) (.ok .null) :=
  rfl

/-- A computation goes on with the outcome of its effect. -/
theorem next_suspended (resume : Outcome → Body) (result : Outcome) :
    setting.next (post.moment setting loc (.suspended resume) result) =
      post.moment setting loc (.running (resume result)) (.ok .null) :=
  rfl

/-- A finished frame is taken off, unless it has deferred effects. -/
theorem next_finished (result : Outcome) :
    setting.next (post.moment setting loc .finished result) = post.unwinding setting loc result :=
  rfl

/-- A computation hands over an effect. -/
theorem next_perform (effect : Effect) (resume : Outcome → Body) (hended : loc.ended = none) :
    setting.next (post.moment setting loc (.running (.perform effect resume)) (.ok .null)) =
      { run := setting.machine.handle effect (post.performing setting (.suspended resume) loc)
        turns := loc.turns } := by
  rw [performing, hended]
  rfl

/-- A computation ends. -/
theorem next_done (holds : post.Holds site loc.around) (outcome : Outcome) :
    setting.next (post.moment setting loc (.running (.done outcome)) (.ok .null)) =
      post.unwinding setting (loc.finish site.labels outcome) outcome := by
  cases outcome with
  | ok value => rfl
  | error error =>
      rw [← holds.labels_run setting (.running (.done (.error error))) (.ok .null)]
      rfl

/-- A step of a computation at an action tries the action. -/
theorem step_act (action : Action) (resume : action.Reply → Body) :
    setting.machine.step (post.moment setting loc (.running (.act action resume)) (.ok .null)).run =
      Machine.act action resume (post.run setting loc (.running (.act action resume)) (.ok .null)) :=
  rfl

/-- A computation does something by itself. -/
theorem next_reply {action : Action} {resume : action.Reply → Body} {host : Host} {answer : action.Reply}
    (hreact : loc.host.react action = .reply host answer) :
    setting.next (post.moment setting loc (.running (.act action resume)) (.ok .null)) =
      post.moment setting
        { loc with host, answerable := loc.answerable ++ action.acquired answer }
        (.running (resume answer)) (.ok .null) := by
  rw [Setting.next, post.step_act]
  simp only [Machine.act, show (post.run setting loc (.running (.act action resume)) (.ok .null)).host =
    loc.host from rfl, hreact]
  rfl

/-- A computation does something by itself and lets others in. -/
theorem next_giveWay {action : Action} {resume : action.Reply → Body} {host : Host}
    {answer : action.Reply} (hreact : loc.host.react action = .giveWay host answer) :
    setting.next (post.moment setting loc (.running (.act action resume)) (.ok .null)) =
      post.moment setting
        ({ loc with host, answerable := loc.answerable ++ action.acquired answer }.letIn setting)
        (.running (resume answer)) (.ok .null) := by
  rw [Setting.next, post.step_act]
  simp only [Machine.act, show (post.run setting loc (.running (.act action resume)) (.ok .null)).host =
    loc.host from rfl, hreact]
  rfl

/-- A computation has to wait. -/
theorem next_wait {action : Action} {resume : action.Reply → Body} {host : Host}
    {occasions : List Occasion} (hreact : loc.host.react action = .wait host occasions) :
    setting.next (post.moment setting loc (.running (.act action resume)) (.ok .null)) =
      post.moment setting ({ loc with host }.letIn setting) (.running (.act action resume)) (.ok .null) := by
  rw [Setting.next, post.step_act]
  simp only [Machine.act, show (post.run setting loc (.running (.act action resume)) (.ok .null)).host =
    loc.host from rfl, hreact]
  rfl

end Steps
end Post
end Direct
end EffectMachine
