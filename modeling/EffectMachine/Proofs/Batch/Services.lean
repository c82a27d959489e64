import EffectMachine.Proofs.Batch.Courses
import EffectMachine.Proofs.Batch.Fairness

/-!
# The computations behind batches

Only flushes collect batches and answer calls, and only the services of batched calls enroll them, abandon batches and
wait for answers.

* `Batch.flushing_of_pushed` and `Batch.joining_of_pushed` say where the computation of a frame stands that was pushed
  with a flush or with the service of a call.
* `Batch.Setting.flush_of_collect`, `Batch.Setting.flush_of_answer` and `Batch.Setting.service_of_enroll` find the
  computations behind the acts of batches.
-/

namespace EffectMachine

/-- A computation takes no part in batches by itself, wherever it has come to. -/
def Progress.Plain (underlying : Nat → Function) (passed : BatchGroup → Prop) : Progress → Prop
  | .fresh body | .running body => body.Plain underlying passed
  | .suspended resume => ∀ answer, (resume answer).Plain underlying passed
  | .root | .finished => True

/-- An act takes no part in batches, and performs a fair effect at most. -/
def Act.Plain (underlying : Nat → Function) (passed : BatchGroup → Prop) : Act → Prop
  | .acted action _ => action.isBatch = false
  | .performed effect => effect.Fair underlying passed
  | _ => True

/-- A plain computation does plain acts only. -/
theorem Follows.plain {underlying : Nat → Function} {passed : BatchGroup → Prop} {first last : Progress}
    {acts : List Act} (follows : Follows first acts last) (hplain : first.Plain underlying passed) :
    ∀ act ∈ acts, act.Plain underlying passed := by
  induction follows with
  | done => exact List.forall_mem_nil _
  | begin _ ih => exact List.forall_mem_cons.2 ⟨trivial, ih hplain⟩
  | resume _ ih => exact List.forall_mem_cons.2 ⟨trivial, ih (hplain _)⟩
  | act _ ih => exact List.forall_mem_cons.2 ⟨hplain.1, ih (hplain.2 _)⟩
  | perform _ ih => exact List.forall_mem_cons.2 ⟨hplain.1, ih hplain.2⟩
  | complete _ ih | giveUp _ _ ih | vacate _ ih => exact List.forall_mem_cons.2 ⟨trivial, ih trivial⟩

theorem Cut.plain {underlying : Nat → Function} {passed : BatchGroup → Prop} {acts : List Act} (cut : Cut acts) :
    ∀ act ∈ acts, act.Plain underlying passed :=
  fun act hmem => by rw [cut.eq_givenUp act hmem]; trivial

/-- What comes before a batch is collected takes no part in batches. -/
theorem Act.isBatch_of_isPrelude {action : Action} {reply : action.Reply}
    (hprelude : Act.isPrelude (.acted action reply) = true) : action.isBatch = false := by
  cases action <;> first | rfl | cases hprelude

namespace Batch

variable {machine : Machine} {underlying : Nat → Function} {first : Host} {trace : Trace} {system : System}
variable {task : TaskId} {number : Nat} {group : BatchGroup}

/-- The strides of a frame that was pushed with a computation are strides that the computation follows. -/
theorem follows_of_pushed (runs : Runs machine first trace system) {computation : Computation}
    {tag : Option HandlerTag} (hpushed : .pushed computation tag ∈ life (deeds trace task) number) :
    ∃ last, Follows (.fresh computation.body) (strides (life (deeds trace task) number)) last := by
  obtain ⟨later, last, hlife, plays⟩ := runs.life_eq hpushed
  refine ⟨last, ?_⟩
  rw [hlife]
  exact plays.follows

/-- A flush stands somewhere on its course. -/
theorem flushing_of_pushed (runs : Runs machine first trace system) {function : Function} {window : Nat}
    {tag : Option HandlerTag} (hpushed : .pushed (flush group function window) tag ∈ life (deeds trace task) number) :
    Flushing group function (strides (life (deeds trace task) number)) := by
  obtain ⟨last, follows⟩ := follows_of_pushed runs hpushed
  exact flushing_of_follows follows

/-- A call that runs alone takes no part in batches. -/
theorem plain_alone (underlying : Nat → Function) (passed : BatchGroup → Prop) (function : Function)
    (args : List Value) : (alone function args).Plain underlying passed := by
  refine ⟨rfl, fun _ => ⟨trivial, fun answer => ?_⟩⟩
  dsimp only
  split <;> trivial

/-- The service of a batched call stands somewhere on its course: it has enrolled the call, or has done nothing about
batches. -/
theorem joining_of_pushed (runs : Runs machine first trace system) {batcher window : Nat} {operation : Effect}
    {tag : Option HandlerTag} (hpushed : .pushed (handle batcher window operation) tag ∈ life (deeds trace task) number) :
    (∀ underlying passed, ∀ act ∈ strides (life (deeds trace task) number), act.Plain underlying passed) ∨
    ∃ kind definition function key args begun enrolment rest,
      operation = .custom kind (.batchCall definition function (some key) args) ∧ key.isTruthy = true ∧
      strides (life (deeds trace task) number) =
        .resumed begun :: .acted (.enroll { batcher, definition, key } args) enrolment :: rest ∧
      Joining { batcher, definition, key } function window enrolment rest := by
  obtain ⟨last, follows⟩ := follows_of_pushed runs hpushed
  rcases follows.of_fresh with cut | ⟨begun, acts, hacts, hbegun⟩
  · exact .inl fun underlying passed => cut.plain
  have hquiet (hplain : ∀ underlying passed, ∀ act ∈ acts, act.Plain underlying passed) (underlying : Nat → Function)
      (passed : BatchGroup → Prop) : ∀ act ∈ strides (life (deeds trace task) number), act.Plain underlying passed := by
    rw [hacts]
    exact List.forall_mem_cons.2 ⟨trivial, hplain underlying passed⟩
  rcases handle_cases batcher window operation with
    ⟨kind, definition, function, key, args, hoperation, htruthy, hbody⟩ | ⟨kind, definition, function, key, args, -, -, hbody⟩ |
      ⟨outcome, hbody⟩
  · rw [hbody] at hbegun
    rcases joining_of_follows hbegun with cut | ⟨enrolment, rest, rfl, hjoining⟩
    · exact .inl (hquiet fun underlying passed => cut.plain)
    · exact .inr ⟨kind, definition, function, key, args, begun, enrolment, rest, hoperation, htruthy, hacts, hjoining⟩
  · rw [hbody] at hbegun
    exact .inl (hquiet fun underlying passed => hbegun.plain (plain_alone underlying passed function args))
  · rw [hbody] at hbegun
    have hplain (underlying : Nat → Function) (passed : BatchGroup → Prop) :
        Progress.Plain underlying passed (.running (.done outcome)) := trivial
    exact .inl (hquiet fun underlying passed => hbegun.plain (hplain underlying passed))

/-! ## The computations behind the acts of batches -/

/-- A flush takes no part in batches but to collect its group and to answer calls. -/
theorem Flushing.collects_or_answers {function : Function} {acts : List Act} (flushing : Flushing group function acts)
    {action : Action} {reply : action.Reply} (hacted : .acted action reply ∈ acts) (hbatch : action.isBatch = true) :
    action = .collect group ∨ ∃ slot outcome, action = .answer slot outcome := by
  have hprelude {acts : List Act} (hquiet : ∀ act ∈ acts, act.isPrelude = true) : .acted action reply ∉ acts :=
    fun hmem => absurd (Act.isBatch_of_isPrelude (hquiet _ hmem)) (by simp [hbatch])
  cases flushing with
  | waiting hquiet => exact absurd hacted (hprelude hquiet)
  | calling calls hquiet hasking hunanswered =>
      rcases List.mem_append.1 hacted with hmem | hmem
      · exact absurd hmem (hprelude hquiet)
      · rcases List.mem_cons.1 hmem with hcollected | hmem
        · cases hcollected
          exact .inl rfl
        · rcases hasking _ hmem with hact | hact
          · exact absurd (List.mem_singleton_self _) (hprelude (List.forall_mem_singleton.2 hact))
          · cases hact
  | answering begun calls returned hquiet hbegun hreplies hdone =>
      rcases List.mem_append.1 hacted with hmem | hmem
      · exact absurd hmem (hprelude hquiet)
      · simp only [List.mem_cons, reduceCtorEq, false_or] at hmem
        rcases hmem with hcollected | hemitted | hmem
        · cases hcollected
          exact .inl rfl
        · cases hemitted
          cases hbatch
        · have hact := hreplies _ hmem
          cases action with
          | answer slot outcome => exact .inr ⟨slot, outcome, rfl⟩
          | emit => cases hbatch
          | _ => cases hact

/-- The service of a call takes no part in batches but to enroll the call, to abandon its group and to wait. -/
theorem Joining.abandons_or_receives {function : Function} {window : Nat} {enrolment : Enrolment} {acts : List Act}
    (joining : Joining group function window enrolment acts) {action : Action} {reply : action.Reply}
    (hacted : .acted action reply ∈ acts) (hbatch : action.isBatch = true) :
    action = .abandon group ∨ action = .receive enrolment.slot := by
  have hcut {acts : List Act} (cut : Cut acts) : .acted action reply ∉ acts := cut.not_mem (by simp)
  cases joining with
  | opening hopened hquiet =>
      exact absurd (Act.isBatch_of_isPrelude (hquiet _ hacted)) (by simp [hbatch])
  | launching hopened cut =>
      simp only [List.mem_cons, reduceCtorEq, false_or] at hacted
      rcases hacted with hemitted | hmem
      · cases hemitted
        cases hbatch
      · exact absurd hmem (hcut cut)
  | refused hopened error hfailing =>
      simp only [List.mem_cons, reduceCtorEq, false_or] at hacted
      rcases hacted with hemitted | hmem
      · cases hemitted
        cases hbatch
      · rcases hfailing with cut | ⟨-, rfl⟩ | ⟨-, rest, rfl, hrest⟩
        · exact absurd hmem (hcut cut)
        · simp at hmem
        · rcases List.mem_cons.1 hmem with habandoned | hmem
          · cases habandoned
            exact .inl rfl
          · rcases hrest with cut | rfl
            · exact absurd hmem (hcut cut)
            · simp at hmem
  | waiting hlaunched hwaiting =>
      rcases List.mem_append.1 hacted with hmem | hmem
      · rcases hlaunched with ⟨-, rfl⟩ | ⟨-, value, rfl⟩
        · cases hmem
        · simp only [List.mem_cons, reduceCtorEq, List.not_mem_nil, or_false] at hmem
          cases hmem
          cases hbatch
      · rcases hwaiting with cut | ⟨reply, rest, rfl, hrest⟩
        · exact absurd hmem (hcut cut)
        · rcases List.mem_cons.1 hmem with hreceived | hmem
          · cases hreceived
            exact .inr rfl
          · rcases hrest with cut | rfl
            · exact absurd hmem (hcut cut)
            · simp at hmem

namespace Setting

variable (setting : Setting machine underlying) (fresh : Fresh underlying first)
  (runs : Runs machine first trace system)
include setting fresh runs

/-- Only flushes and services of batched calls take part in batches. -/
theorem takes_part {action : Action} {reply : action.Reply} (hbatch : action.isBatch = true)
    (hacted : .acted action reply ∈ life (deeds trace task) number) :
    (∃ group window tag,
      .pushed (flush group (underlying group.definition) window) tag ∈ life (deeds trace task) number) ∨
    ∃ batcher window operation tag, operation.Fair underlying (fun _ => True) ∧
      .pushed (handle batcher window operation) tag ∈ life (deeds trace task) number := by
  have hpassed : (∀ group, (fun _ : BatchGroup => True) group) ∨ Unintercepted machine := .inl fun _ => trivial
  have hstride : (Act.acted action reply).isStride = true := rfl
  obtain ⟨computation, tag, hrunnable, hpushed⟩ := setting.exists_runnable hpassed fresh runs hstride hacted
  rcases hrunnable with hfair | ⟨group, window, rfl⟩ | ⟨batcher, window, operation, hfair, rfl⟩
  · obtain ⟨name, body⟩ := computation
    rcases hfair with hplain | ⟨group, window, -, hflush⟩
    · obtain ⟨last, follows⟩ := follows_of_pushed runs hpushed
      have hquiet : action.isBatch = false := follows.plain hplain _ (mem_strides.2 ⟨hacted, rfl⟩)
      rw [hbatch] at hquiet
      cases hquiet
    · exact .inl ⟨group, window, tag, hflush ▸ hpushed⟩
  · exact .inl ⟨group, window, tag, hpushed⟩
  · exact .inr ⟨batcher, window, operation, tag, hfair, hpushed⟩

/-- Batches are collected by their flushes. -/
theorem flush_of_collect {calls : List Enrolled}
    (hcollected : .acted (.collect group) calls ∈ life (deeds trace task) number) :
    ∃ window tag, .pushed (flush group (underlying group.definition) window) tag ∈ life (deeds trace task) number := by
  have hmem : .acted (.collect group) calls ∈ strides (life (deeds trace task) number) :=
    mem_strides.2 ⟨hcollected, rfl⟩
  rcases setting.takes_part fresh runs rfl hcollected with ⟨other, window, tag, hpushed⟩ |
    ⟨batcher, window, operation, tag, -, hpushed⟩
  · rcases (flushing_of_pushed runs hpushed).collects_or_answers hmem rfl with hsame | ⟨slot, outcome, hanswer⟩
    · cases hsame
      exact ⟨window, tag, hpushed⟩
    · cases hanswer
  · rcases joining_of_pushed runs hpushed with hquiet | ⟨_, _, _, _, _, _, _, _, -, -, hstrides, joining⟩
    · cases hquiet underlying withheld _ hmem
    · rw [hstrides] at hmem
      simp only [List.mem_cons, reduceCtorEq, false_or] at hmem
      rcases hmem with henrolled | hmem
      · cases henrolled
      · rcases joining.abandons_or_receives hmem rfl with hact | hact <;> cases hact

/-- Calls are answered by flushes. -/
theorem flush_of_answer {slot : Slot} {outcome : Outcome}
    (hanswered : .acted (.answer slot outcome) () ∈ life (deeds trace task) number) :
    ∃ group window tag,
      .pushed (flush group (underlying group.definition) window) tag ∈ life (deeds trace task) number := by
  have hmem : .acted (.answer slot outcome) () ∈ strides (life (deeds trace task) number) :=
    mem_strides.2 ⟨hanswered, rfl⟩
  rcases setting.takes_part fresh runs rfl hanswered with hflush | ⟨batcher, window, operation, tag, -, hpushed⟩
  · exact hflush
  · rcases joining_of_pushed runs hpushed with hquiet | ⟨_, _, _, _, _, _, _, _, -, -, hstrides, joining⟩
    · cases hquiet underlying withheld _ hmem
    · rw [hstrides] at hmem
      simp only [List.mem_cons, reduceCtorEq, false_or] at hmem
      rcases hmem with henrolled | hmem
      · cases henrolled
      · rcases joining.abandons_or_receives hmem rfl with hact | hact <;> cases hact

/-- Calls are enrolled by their services. -/
theorem service_of_enroll {args : List Value} {enrolment : Enrolment}
    (henrolled : .acted (.enroll group args) enrolment ∈ life (deeds trace task) number) :
    ∃ kind window tag begun rest,
      .pushed (handle group.batcher window (.custom kind
        (.batchCall group.definition (underlying group.definition) (some group.key) args))) tag ∈
          life (deeds trace task) number ∧ group.key.isTruthy = true ∧
      strides (life (deeds trace task) number) = .resumed begun :: .acted (.enroll group args) enrolment :: rest ∧
      Joining group (underlying group.definition) window enrolment rest := by
  have hmem : .acted (.enroll group args) enrolment ∈ strides (life (deeds trace task) number) :=
    mem_strides.2 ⟨henrolled, rfl⟩
  rcases setting.takes_part fresh runs rfl henrolled with ⟨other, window, tag, hpushed⟩ |
    ⟨batcher, window, operation, tag, hfair, hpushed⟩
  · rcases (flushing_of_pushed runs hpushed).collects_or_answers hmem rfl with hact | ⟨slot, outcome, hact⟩ <;> cases hact
  · rcases joining_of_pushed runs hpushed with hquiet |
      ⟨kind, definition, function, key, others, begun, other, rest, rfl, htruthy, hstrides, joining⟩
    · cases hquiet underlying withheld _ hmem
    · have hown := hmem
      rw [hstrides] at hown
      simp only [List.mem_cons, reduceCtorEq, false_or] at hown
      rcases hown with hown | hlater
      · cases hown
        obtain rfl : function = underlying definition := hfair
        exact ⟨kind, window, tag, begun, rest, hpushed, htruthy, hstrides, joining⟩
      · rcases joining.abandons_or_receives hlater rfl with hact | hact <;> cases hact

end Setting
end Batch
end EffectMachine
