import EffectMachine.Proofs.Acts.Lives

/-!
# Strides of a computation

The life of a frame is full of acts that its computation knows nothing of: the frame is told a result, takes
note of a cancellation, or finds that it has to wait.  What is left without them are the strides of the
computation, which follow its body to the letter.

* `strides` are the strides among some acts; `Follows` relates how far a computation has come to how far it
  comes by some strides, one constructor for each form of a body.
* `Plays.follows` says that the strides among the acts that a computation plays are strides it follows.
* `Completes` are the strides of a body that comes to its end, and `Stops` those of a body that comes to its end
  or is not resumed after an effect.
* `Reaches` are strides that take a body to what is left of it, and `Works` those of them that the body takes by
  itself.
* `answers` are the outcomes that the effects of a computation ended with.
-/

namespace EffectMachine

/-- Whether an act takes a computation further. -/
def Act.isStride : Act → Bool
  | .resumed _ | .acted .. | .performed _ | .completed _ | .givenUp | .vacated => true
  | _ => false

/-- The strides among some acts. -/
def strides (acts : List Act) : List Act :=
  acts.filter Act.isStride

/-- How far a computation comes by its strides. -/
inductive Follows : Progress → List Act → Progress → Prop
  | done (progress : Progress) : Follows progress [] progress
  | begin {body : Body} {outcome : Outcome} {acts : List Act} {last : Progress}
      (rest : Follows (.running body) acts last) : Follows (.fresh body) (.resumed outcome :: acts) last
  | resume {resume : Outcome → Body} {outcome : Outcome} {acts : List Act} {last : Progress}
      (rest : Follows (.running (resume outcome)) acts last) :
      Follows (.suspended resume) (.resumed outcome :: acts) last
  | act {action : Action} {resume : action.Reply → Body} {reply : action.Reply} {acts : List Act}
      {last : Progress} (rest : Follows (.running (resume reply)) acts last) :
      Follows (.running (.act action resume)) (.acted action reply :: acts) last
  | perform {effect : Effect} {resume : Outcome → Body} {acts : List Act} {last : Progress}
      (rest : Follows (.suspended resume) acts last) :
      Follows (.running (.perform effect resume)) (.performed effect :: acts) last
  | complete {outcome : Outcome} {acts : List Act} {last : Progress} (rest : Follows .finished acts last) :
      Follows (.running (.done outcome)) (.completed outcome :: acts) last
  | giveUp {progress : Progress} {acts : List Act} {last : Progress} (hgoing : progress ≠ .finished)
      (rest : Follows .finished acts last) : Follows progress (.givenUp :: acts) last
  | vacate {acts : List Act} {last : Progress} (rest : Follows .finished acts last) :
      Follows .root (.vacated :: acts) last

section Strides

variable {acts : List Act}

theorem mem_strides {act : Act} : act ∈ strides acts ↔ act ∈ acts ∧ act.isStride = true :=
  List.mem_filter

/-- An act that is an aside is no stride. -/
theorem Act.isStride_of_isAside {act : Act} (haside : act.isAside = true) : act.isStride = false := by
  cases act <;> first | rfl | cases haside

/-- The strides among the acts that a computation plays are strides it follows. -/
theorem Plays.follows {first last : Progress} (plays : Plays first acts last) :
    Follows first (strides acts) last := by
  induction plays with
  | done progress => exact .done progress
  | @aside _ _ act acts haside _ ih =>
      have hskip : strides (act :: acts) = strides acts :=
        List.filter_cons_of_neg (by simp [Act.isStride_of_isAside haside])
      rw [hskip]
      exact ih
  | begin _ ih => exact .begin ih
  | resume _ ih => exact .resume ih
  | act _ ih => exact .act ih
  | wait _ ih => exact ih
  | perform _ ih => exact .perform ih
  | complete _ ih => exact .complete ih
  | giveUp hgoing _ ih => exact .giveUp hgoing ih
  | vacate _ ih => exact .vacate ih

/-- A computation that has ended makes no strides. -/
theorem Follows.of_finished {last : Progress} (follows : Follows .finished acts last) : acts = [] := by
  cases follows with
  | done progress => rfl
  | giveUp hgoing _ => exact absurd rfl hgoing

end Strides

/-- The outcome that a computation is resumed with. -/
def Act.resumption? : Act → Option Outcome
  | .resumed outcome => some outcome
  | _ => none

/-- The outcomes that a computation was resumed with, the first of which begins it. -/
def resumptions (acts : List Act) : List Outcome :=
  acts.filterMap Act.resumption?

/-- The outcomes that the effects of a computation ended with. -/
def answers (acts : List Act) : List Outcome :=
  (resumptions acts).tail

theorem resumptions_append (acts more : List Act) :
    resumptions (acts ++ more) = resumptions acts ++ resumptions more :=
  List.filterMap_append

/-- All resumptions are strides. -/
@[simp] theorem resumptions_strides (acts : List Act) : resumptions (strides acts) = resumptions acts := by
  rw [resumptions, strides, List.filterMap_filter, resumptions]
  congr 1
  funext act
  cases act <;> rfl

/-- The strides of a body that comes to its end. -/
inductive Completes : Body → List Act → Outcome → Prop
  | done (outcome : Outcome) : Completes (.done outcome) [.completed outcome] outcome
  | act {action : Action} {resume : action.Reply → Body} {reply : action.Reply} {acts : List Act}
      {outcome : Outcome} (rest : Completes (resume reply) acts outcome) :
      Completes (.act action resume) (.acted action reply :: acts) outcome
  | perform {effect : Effect} {resume : Outcome → Body} {answer : Outcome} {acts : List Act}
      {outcome : Outcome} (rest : Completes (resume answer) acts outcome) :
      Completes (.perform effect resume) (.performed effect :: .resumed answer :: acts) outcome

/-- The strides of a computation that comes to its end from where it is. -/
def CompletesFrom : Progress → List Act → Outcome → Prop
  | .fresh body, acts, outcome => ∃ begun rest, acts = .resumed begun :: rest ∧ Completes body rest outcome
  | .suspended resume, acts, outcome =>
    ∃ answer rest, acts = .resumed answer :: rest ∧ Completes (resume answer) rest outcome
  | .running body, acts, outcome => Completes body acts outcome
  | .root, _, _ | .finished, _, _ => False

/-- A computation that completes comes to its end. -/
theorem Follows.completes {first last : Progress} {acts : List Act} {outcome : Outcome}
    (follows : Follows first acts last) (hcompleted : .completed outcome ∈ acts) :
    CompletesFrom first acts outcome := by
  induction follows with
  | done progress => cases hcompleted
  | begin _ ih | resume _ ih => exact ⟨_, _, rfl, ih (by simpa using hcompleted)⟩
  | act _ ih => exact .act (ih (by simpa using hcompleted))
  | perform _ ih =>
      obtain ⟨answer, rest, rfl, hrest⟩ := ih (by simpa using hcompleted)
      exact .perform hrest
  | complete rest =>
      rw [rest.of_finished] at hcompleted ⊢
      rw [Act.completed.inj (List.mem_singleton.1 hcompleted)]
      exact .done _
  | giveUp _ rest | vacate rest =>
      rw [rest.of_finished] at hcompleted
      cases List.mem_singleton.1 hcompleted

/-- The strides of a body that comes to its end, or is not resumed after an effect. -/
inductive Stops : Body → List Act → Prop
  | done (outcome : Outcome) : Stops (.done outcome) [.completed outcome]
  | act {action : Action} {resume : action.Reply → Body} {reply : action.Reply} {acts : List Act}
      (rest : Stops (resume reply) acts) : Stops (.act action resume) (.acted action reply :: acts)
  | asked (effect : Effect) (resume : Outcome → Body) : Stops (.perform effect resume) [.performed effect]
  | perform {effect : Effect} {resume : Outcome → Body} {answer : Outcome} {acts : List Act}
      (rest : Stops (resume answer) acts) :
      Stops (.perform effect resume) (.performed effect :: .resumed answer :: acts)

/-- A computation has ended, or waits for the outcome of an effect. -/
def Progress.Waits : Progress → Prop
  | .suspended _ | .finished => True
  | .root | .fresh _ | .running _ => False

/-- The strides of a computation that stops from where it is. -/
def StopsFrom : Progress → List Act → Prop
  | .fresh body, acts => ∃ begun rest, acts = .resumed begun :: rest ∧ Stops body rest
  | .suspended resume, acts => acts = [] ∨ ∃ answer rest, acts = .resumed answer :: rest ∧ Stops (resume answer) rest
  | .running body, acts => Stops body acts
  | .root, _ | .finished, _ => True

/-- A computation that has ended or waits, and was not given up, has stopped. -/
theorem Follows.stops {first last : Progress} {acts : List Act} (follows : Follows first acts last)
    (hkept : .givenUp ∉ acts) (hwaits : last.Waits) : StopsFrom first acts := by
  induction follows with
  | done progress =>
      cases progress with
      | suspended resume => exact .inl rfl
      | finished => trivial
      | root | fresh body | running body => cases hwaits
  | begin _ ih => exact ⟨_, _, rfl, ih (fun hmem => hkept (List.mem_cons_of_mem _ hmem)) hwaits⟩
  | resume _ ih => exact .inr ⟨_, _, rfl, ih (fun hmem => hkept (List.mem_cons_of_mem _ hmem)) hwaits⟩
  | act _ ih => exact .act (ih (fun hmem => hkept (List.mem_cons_of_mem _ hmem)) hwaits)
  | perform _ ih =>
      rcases ih (fun hmem => hkept (List.mem_cons_of_mem _ hmem)) hwaits with rfl | ⟨answer, rest, rfl, hrest⟩
      · exact .asked _ _
      · exact .perform hrest
  | complete rest =>
      rw [rest.of_finished]
      exact .done _
  | giveUp => exact absurd List.mem_cons_self hkept
  | vacate => trivial

/-- Strides that take a body to what is left of it. -/
inductive Reaches : Body → List Act → Body → Prop
  | here (body : Body) : Reaches body [] body
  | act {action : Action} {resume : action.Reply → Body} {reply : action.Reply} {acts : List Act}
      {left : Body} (rest : Reaches (resume reply) acts left) :
      Reaches (.act action resume) (.acted action reply :: acts) left
  | perform {effect : Effect} {resume : Outcome → Body} {answer : Outcome} {acts : List Act} {left : Body}
      (rest : Reaches (resume answer) acts left) :
      Reaches (.perform effect resume) (.performed effect :: .resumed answer :: acts) left

/-- A body gets further. -/
theorem Reaches.trans {body middle left : Body} {acts more : List Act} (hfirst : Reaches body acts middle)
    (hmore : Reaches middle more left) : Reaches body (acts ++ more) left := by
  induction hfirst with
  | here body => exact hmore
  | act _ ih => exact .act (ih hmore)
  | perform _ ih => exact .perform (ih hmore)

/-- Acts that a computation does by itself. -/
def Alone (acts : List Act) : Prop :=
  ∀ act ∈ acts, ∃ (action : Action) (reply : action.Reply), act = .acted action reply

/-- Acts of a body by itself that take it to what is left of it. -/
inductive Works : Body → List Act → Body → Prop
  | here (body : Body) : Works body [] body
  | act {action : Action} {resume : action.Reply → Body} {reply : action.Reply} {acts : List Act}
      {left : Body} (rest : Works (resume reply) acts left) :
      Works (.act action resume) (.acted action reply :: acts) left

namespace Works

variable {body middle left : Body} {acts more : List Act}

theorem trans (hfirst : Works body acts middle) (hmore : Works middle more left) :
    Works body (acts ++ more) left := by
  induction hfirst with
  | here body => exact hmore
  | act _ ih => exact .act (ih hmore)

theorem reaches (works : Works body acts left) : Reaches body acts left := by
  induction works with
  | here body => exact .here body
  | act _ ih => exact .act ih

theorem alone (works : Works body acts left) : Alone acts := by
  induction works with
  | here body => exact List.forall_mem_nil _
  | act _ ih => exact List.forall_mem_cons.2 ⟨⟨_, _, rfl⟩, ih⟩

end Works
end EffectMachine
