import EffectMachine.Proofs.Batch.Books

/-!
# The slots of batched calls

What becomes of the slot that a batched call awaits its answer in is known from the acts of all processes.  A slot is
answered by the first answer that is given for it once it was given out.  It is closed by the first computation
that ends without having answered it although it had collected the call, or when its batch is abandoned.

* `Answers` and `Closes` say so of some acts, and `SlotState.Accounted` of the state that a slot is in.
* `Batch.Setting.accounts` says that the host keeps its slots by the acts, so that what a call receives goes back to an
  act that answered or closed its slot.
-/

namespace EffectMachine

/-- Among some acts, a slot that was given out by then is answered with an outcome. -/
def Answers (trace : Trace) (slot : Slot) (outcome : Outcome) : Prop :=
  ∃ before task after, trace = before ++ (task, .acted (.answer slot outcome) ()) :: after ∧
    slot.index < enrolments before

/-- Whether an act ends the computation of a frame, or discards the frame. -/
def Act.ends : Act → Bool
  | .completed _ | .givenUp | .vacated | .dropped => true
  | _ => false

/-- Whether an act answers a call. -/
def Act.isAnswer : Act → Bool
  | .acted (.answer ..) _ => true
  | _ => false

/-- An act closes a slot: it abandons the batch of the call, or ends the computation that has collected the call. -/
inductive Act.Closes (before : Trace) (task : TaskId) (slot : Slot) : Act → Prop
  | abandon (group : BatchGroup) {call : Enrolled} (hcall : call ∈ booked group before) (hslot : call.slot = slot) :
      Closes before task slot (.acted (.abandon group) ())
  | ends {act : Act} {number : Nat} {group : BatchGroup} {calls : List Enrolled} {call : Enrolled}
      (hends : act.ends = true) (hactor : (Roll.after (deeds before task)).actor act = number)
      (hcollected : .acted (.collect group) calls ∈ life (deeds before task) number) (hcall : call ∈ calls)
      (hslot : call.slot = slot) : Closes before task slot act

/-- Among some acts, a slot is closed that was not answered before. -/
def Closes (trace : Trace) (slot : Slot) : Prop :=
  ∃ before task act after, trace = before ++ (task, act) :: after ∧ act.Closes before task slot ∧
    ∀ outcome, ¬ Answers before slot outcome

/-- The state of a slot goes back to some acts. -/
def SlotState.Accounted (trace : Trace) (slot : Slot) : SlotState → Prop
  | .pending => ∀ outcome, ¬ Answers trace slot outcome
  | .answered outcome => Answers trace slot outcome
  | .closed => Closes trace slot

/-- The reply to waiting for a slot goes back to some acts. -/
def Receives (trace : Trace) (slot : Slot) : Option Outcome → Prop
  | some outcome => Answers trace slot outcome
  | none => Closes trace slot

section Acts

variable {trace : Trace} {slot : Slot} {outcome : Outcome} {task : TaskId} {act : Act}

theorem Answers.append (hanswers : Answers trace slot outcome) (more : Trace) :
    Answers (trace ++ more) slot outcome := by
  obtain ⟨before, task, after, rfl, hborn⟩ := hanswers
  exact ⟨before, task, after ++ more, by simp, hborn⟩

theorem Closes.append (hcloses : Closes trace slot) (more : Trace) : Closes (trace ++ more) slot := by
  obtain ⟨before, task, act, after, rfl, hact, hunanswered⟩ := hcloses
  exact ⟨before, task, act, after ++ more, by simp, hact, hunanswered⟩

theorem Receives.append {reply : Option Outcome} (hreceives : Receives trace slot reply) (more : Trace) :
    Receives (trace ++ more) slot reply := by
  cases reply with
  | none => exact Closes.append hreceives more
  | some outcome => exact Answers.append hreceives more

/-- One more act answers a slot only if it is the answer. -/
theorem Answers.of_concat (hanswers : Answers (trace ++ [(task, act)]) slot outcome) :
    Answers trace slot outcome ∨ act = .acted (.answer slot outcome) () ∧ slot.index < enrolments trace := by
  obtain ⟨before, other, after, hsplit, hborn⟩ := hanswers
  rcases split_of_append hsplit with ⟨rest, rfl, -⟩ | ⟨rest, rfl, hlast⟩
  · exact .inl ⟨before, other, rest, rfl, hborn⟩
  · cases rest with
    | nil =>
        obtain ⟨hentry, -⟩ := List.cons.inj hlast
        cases hentry
        exact .inr ⟨rfl, by simpa using hborn⟩
    | cons head rest => simp at hlast

/-- An answer is given to a slot that was given out. -/
theorem Answers.lt_enrolments (hanswers : Answers trace slot outcome) : slot.index < enrolments trace := by
  obtain ⟨before, task, after, rfl, hborn⟩ := hanswers
  rw [enrolments_append]
  omega

end Acts

namespace Host

/-- What settling a slot makes of all slots. -/
theorem slots_settle {host : Host} {slot : Slot} {state later : SlotState} {index : Nat}
    (hlater : (host.settle slot state).batches.slots[index]? = some later) :
    host.batches.slots[index]? = some later ∧ (slot.index = index → host.batches.isPending slot = false) ∨
      slot.index = index ∧ later = state ∧ host.batches.slots[index]? = some .pending := by
  have hpending (hindex : slot.index = index) (hstate : host.batches.isPending slot = true) :
      host.batches.slots[index]? = some .pending := by
    unfold Batches.isPending Batches.stateOf at hstate
    rw [hindex] at hstate
    cases hfound : host.batches.slots[index]? with
    | none => rw [hfound] at hstate; cases hstate
    | some found =>
        rw [hfound] at hstate
        cases found with
        | pending => rfl
        | answered | closed => cases hstate
  unfold settle at hlater
  cases hstate : host.batches.isPending slot with
  | false =>
      rw [hstate] at hlater
      exact .inl ⟨hlater, fun _ => rfl⟩
  | true =>
      rw [hstate] at hlater
      have hset : (host.batches.slots.set slot.index state)[index]? = some later := by
        simpa [announce, Batches.settle, hstate] using hlater
      rw [List.getElem?_set] at hset
      split at hset
      · rename_i hindex
        split at hset
        · exact .inr ⟨hindex, (Option.some.inj hset).symm, hpending hindex hstate⟩
        · cases hset
      · rename_i hother
        exact .inl ⟨hset, fun hindex => absurd hindex hother⟩

/-- What closing some slots makes of all slots. -/
theorem slots_close {host : Host} {slots : List Slot} {later : SlotState} {index : Nat}
    (hlater : (host.close slots).batches.slots[index]? = some later) :
    host.batches.slots[index]? = some later ∨
      ⟨index⟩ ∈ slots ∧ later = .closed ∧ host.batches.slots[index]? = some .pending := by
  unfold close at hlater
  induction slots generalizing host with
  | nil => exact .inl hlater
  | cons slot slots ih =>
      rcases ih hlater with hkept | ⟨hmem, hclosed, hpending⟩
      · rcases slots_settle hkept with ⟨hsame, -⟩ | ⟨rfl, hclosed, hpending⟩
        · exact .inl hsame
        · exact .inr ⟨List.mem_cons_self, hclosed, hpending⟩
      · rcases slots_settle hpending with ⟨hsame, -⟩ | ⟨-, hnever, -⟩
        · exact .inr ⟨List.mem_cons_of_mem _ hmem, hclosed, hsame⟩
        · cases hnever

end Host

/-! ## What a computation is answerable for -/

/-- A frame is answerable for the calls that its computation has collected. -/
def Frame.AnswersFor (acts : List Act) (number : Nat) (frame : Frame) : Prop :=
  ∀ slot ∈ frame.answerable, ∃ group calls call, .acted (.collect group) calls ∈ life acts number ∧
    (call : Enrolled) ∈ (calls : List Enrolled) ∧ call.slot = slot

theorem Frame.AnswersFor.concat {acts : List Act} {number : Nat} {frame after : Frame} (act : Act)
    (hanswers : frame.AnswersFor acts number) (hless : ∀ slot ∈ after.answerable, slot ∈ frame.answerable) :
    after.AnswersFor (acts ++ [act]) number := by
  intro slot hslot
  obtain ⟨group, calls, call, hcollected, hcall⟩ := hanswers slot (hless slot hslot)
  exact ⟨group, calls, call, mem_life_append _ hcollected, hcall⟩

/-- Follows what computations are answerable for. -/
def answerables : Watch where
  kept := fun acts number frame => frame.AnswersFor acts number
  gone := fun _ _ => True
  fresh := fun _ _ _ _ => List.forall_mem_nil _
  own := by
    intro acts act number frame after hpos hactor hlive hdoes kept
    cases hdoes with
    | act action resume reply hrunning =>
        intro slot hslot
        rcases List.mem_append.1 hslot with hearlier | hacquired
        · have hstays : frame.AnswersFor (acts ++ [.acted action reply]) number := kept.concat _ fun _ hmem => hmem
          exact hstays slot hearlier
        · have hacted : .acted action reply ∈ life (acts ++ [.acted action reply]) number := by
            rw [life_concat, if_pos hactor]
            exact List.mem_append_right _ List.mem_cons_self
          cases action with
          | collect group =>
              obtain ⟨call, hcall, hslot⟩ := List.mem_map.1 hacquired
              exact ⟨group, reply, call, hacted, hcall, hslot⟩
          | _ => cases hacquired
    | complete | giveUp | vacate => exact List.forall_mem_nil _
    | notice =>
        refine kept.concat _ fun slot hslot => ?_
        unfold Frame.markCanceled at hslot
        split at hslot <;> exact hslot
    | _ => exact kept.concat _ fun _ hslot => hslot
  beside := by
    intro acts act number frame after hpos hother hlive hbeside kept
    refine kept.concat _ fun slot hslot => ?_
    cases hbeside with
    | marked =>
        unfold Frame.markCanceled at hslot
        split at hslot <;> exact hslot
    | _ => exact hslot
  drop := fun _ _ _ => trivial
  leave := fun _ _ _ _ _ => trivial
  stay := fun _ _ => trivial

/-- The sentinel, which is at the bottom, runs nothing and is answerable for nothing. -/
def Rooted : List Frame → Prop
  | [] => True
  | [frame] => (frame.progress = .root ∨ frame.progress = .finished) ∧ frame.answerable = []
  | _ :: rest => Rooted rest

namespace Rooted

variable {top after : Frame} {frames others : List Frame} {act : Act}

theorem tail (rooted : Rooted (top :: frames)) : Rooted frames := by
  cases frames with
  | nil => trivial
  | cons parent rest => exact rooted

/-- What stands above does not matter. -/
theorem cons (rooted : Rooted frames) (hsentinel : frames = [] → Rooted [top]) : Rooted (top :: frames) := by
  cases frames with
  | nil => exact hsentinel rfl
  | cons parent rest => exact rooted

/-- The sentinel is not changed by acts that are about other frames. -/
theorem besideAll (hbeside : BesideAll frames act others) (rooted : Rooted frames) : Rooted others := by
  induction hbeside with
  | nil => trivial
  | @cons frame after frames others hfirst hrest ih =>
      refine (ih rooted.tail).cons ?_
      rintro rfl
      cases hrest
      obtain ⟨hprogress, hanswerable⟩ := rooted
      refine ⟨hfirst.progress_eq ▸ hprogress, ?_⟩
      cases hfirst with
      | marked =>
          unfold Frame.markCanceled
          split <;> exact hanswerable
      | _ => exact hanswerable

/-- The sentinel does nothing of its own. -/
theorem does (hdoes : top.Does act after) (rooted : Rooted [top]) : Rooted [after] := by
  obtain ⟨hprogress, hanswerable⟩ := rooted
  cases hdoes with
  | tell | defer | start => exact ⟨hprogress, hanswerable⟩
  | notice =>
      refine ⟨top.markCanceled_progress ▸ hprogress, ?_⟩
      unfold Frame.markCanceled
      split <;> exact hanswerable
  | begin _ hfresh => rcases hprogress with h | h <;> rw [hfresh] at h <;> cases h
  | resume _ hsuspended => rcases hprogress with h | h <;> rw [hsuspended] at h <;> cases h
  | act _ _ _ hrunning | wait _ _ hrunning | perform _ _ hrunning | complete _ hrunning =>
      rcases hprogress with h | h <;> rw [hrunning] at h <;> cases h
  | giveUp | vacate => exact ⟨.inr rfl, rfl⟩

theorem framesDo (hframes : FramesDo frames act others) (hsome : frames ≠ []) (rooted : Rooted frames) :
    Rooted others := by
  cases hframes with
  | push _ computation tag => exact rooted.cons fun hnone => absurd hnone hsome
  | drop => exact rooted.tail
  | leave top hfinished hdefers hbeside => exact rooted.tail.besideAll hbeside
  | top hdoes hbeside =>
      refine (rooted.tail.besideAll hbeside).cons ?_
      rintro rfl
      cases hbeside
      exact rooted.does hdoes

end Rooted

/-- Computations are answerable for the calls that they have collected, in every process. -/
theorem answerables_invariant : Invariant fun acts run => Watched answerables acts run ∧ Rooted run.frames where
  fresh context signal host := ⟨(Watched.invariant answerables).fresh context signal host, .inl rfl, rfl⟩
  again context signal hbelow h := ⟨(Watched.invariant answerables).again context signal hbelow h.1, .inl rfl, rfl⟩
  later hlater h := ⟨(Watched.invariant answerables).later hlater h.1, h.2⟩
  act hdoes h := ⟨h.1.does hdoes, h.2.framesDo hdoes.frames (List.cons_ne_nil _ _)⟩

/-- The computation of the top frame has collected the calls that it is answerable for. -/
theorem Watched.exists_collected {acts : List Act} {run : Run} {slot : Slot} (watched : Watched answerables acts run)
    (rooted : Rooted run.frames) (hslot : slot ∈ run.stack.top.answerable) :
    ∃ group calls call, .acted (.collect group) calls ∈ life acts ((Roll.after acts).live.headD 0) ∧
      (call : Enrolled) ∈ (calls : List Enrolled) ∧ call.slot = slot := by
  have hlength := watched.tracks.length
  have habove : run.stack.below ≠ [] := by
    intro hbelow
    rw [Run.frames, hbelow] at rooted
    rw [rooted.2] at hslot
    cases hslot
  have hkept := watched.kept
  have hpos := watched.tracks.sound.top_pos (by
    have := List.length_pos_iff.2 habove
    omega)
  revert hkept hpos
  cases (Roll.after acts).live with
  | nil => intro hkept; cases hkept
  | cons head rest =>
      intro hkept hpos
      cases hkept with
      | cons hhead _ => exact hhead hpos slot hslot

/-- An act that ends the computation of the top frame closes the slots of the calls that it has collected. -/
theorem Watched.closes {trace : Trace} {task : TaskId} {act : Act} {run : Run}
    (watched : Watched answerables (deeds trace task) run) (rooted : Rooted run.frames) (hends : act.ends = true)
    (hactor : (Roll.after (deeds trace task)).actor act = (Roll.after (deeds trace task)).live.headD 0) :
    ∀ slot ∈ run.stack.top.answerable, act.Closes trace task slot := by
  intro slot hslot
  obtain ⟨group, calls, call, hcollected, hcall, hsame⟩ := watched.exists_collected rooted hslot
  exact .ends hends hactor hcollected hcall hsame

/-! ## The account of slots -/

/-- A slot that stays as it is stays accounted for, unless it is answered. -/
theorem SlotState.Accounted.concat {trace : Trace} {task : TaskId} {act : Act} {slot : Slot} {state : SlotState}
    (accounted : state.Accounted trace slot) (hanswer : act.isAnswer = false) :
    state.Accounted (trace ++ [(task, act)]) slot := by
  cases state with
  | pending =>
      intro outcome hanswers
      rcases hanswers.of_concat with hearlier | ⟨hact, -⟩
      · exact accounted outcome hearlier
      · rw [hact] at hanswer
        cases hanswer
  | answered outcome => exact Answers.append accounted _
  | closed => exact Closes.append accounted _

/-- The host keeps its books and its slots by these acts. -/
structure Accounts (trace : Trace) (batches : Batches) : Prop where
  books : Books trace batches
  slots : ∀ (slot : Slot) (state : SlotState), batches.slots[slot.index]? = some state → state.Accounted trace slot
  receipts : ∀ before task slot reply after, trace = before ++ (task, .acted (.receive slot) reply) :: after →
    slot.index < enrolments before → Receives before slot reply

namespace Accounts

variable {trace : Trace} {task : TaskId} {act : Act} {run next : Run} {batches : Batches}

/-- Slots that stay as they are stay accounted for, unless the act answers one. -/
theorem quiet (accounts : Accounts trace batches) {later : Batches} (hslots : later.slots = batches.slots)
    (hanswer : act.isAnswer = false) (slot : Slot) (state : SlotState)
    (hstate : later.slots[slot.index]? = some state) : state.Accounted (trace ++ [(task, act)]) slot :=
  (accounts.slots slot state (hslots ▸ hstate)).concat hanswer

/-- Slots that an act closes are accounted for. -/
theorem close (accounts : Accounts trace batches) (host : Host) (hhost : host.batches.slots = batches.slots)
    {slots : List Slot} (hcloses : ∀ slot ∈ slots, act.Closes trace task slot)
    (hanswer : act.isAnswer = false) (slot : Slot) (state : SlotState)
    (hstate : (host.close slots).batches.slots[slot.index]? = some state) :
    state.Accounted (trace ++ [(task, act)]) slot := by
  rcases Host.slots_close hstate with hsame | ⟨hmem, rfl, hpending⟩
  · exact accounts.quiet hhost hanswer slot state hsame
  · exact ⟨trace, task, act, [], rfl, hcloses slot hmem, accounts.slots slot .pending (hhost ▸ hpending)⟩

/-- What a computation is told of its slot goes back to the acts before. -/
theorem receives (accounts : Accounts trace run.host.batches) {slot : Slot} {later : Host} {reply : Option Outcome}
    (hborn : slot.index < enrolments trace) (hreact : run.host.react (.receive slot) = .reply later reply) :
    Receives trace slot reply := by
  have hsome : slot.index < run.host.batches.slots.length := accounts.books.slots ▸ hborn
  have hstate := accounts.slots slot _ (List.getElem?_eq_getElem hsome)
  have hof : run.host.batches.stateOf slot = run.host.batches.slots[slot.index] := by
    rw [Batches.stateOf, List.getElem?_eq_getElem hsome]
    rfl
  simp only [Host.react, hof] at hreact
  split at hreact
  · rename_i outcome hanswered
    cases hreact
    rwa [hanswered] at hstate
  · rename_i hclosed
    cases hreact
    rwa [hclosed] at hstate
  · cases hreact

/-- The slots stay accounted for when a call is enrolled: its slot was not answered before it was given out. -/
theorem enroll (accounts : Accounts trace batches) (group : BatchGroup) (args : List Value) (slot : Slot)
    (state : SlotState) (hstate : (batches.enroll group args).2.slots[slot.index]? = some state) :
    state.Accounted (trace ++ [(task, .acted (.enroll group args) (batches.enroll group args).1)]) slot := by
  rw [show (batches.enroll group args).2.slots = batches.slots ++ [.pending] from rfl, List.getElem?_append] at hstate
  split at hstate
  · exact accounts.quiet rfl rfl slot state hstate
  · -- slots are given out in order, so an answer could only have gone to an earlier one
    rename_i hnew
    cases List.mem_singleton.1 (List.mem_of_getElem? hstate)
    intro outcome hanswers
    rcases hanswers.of_concat with hearlier | ⟨hact, -⟩
    · exact hnew (accounts.books.slots ▸ hearlier.lt_enrolments)
    · cases hact

/-- The slots stay accounted for when a batch is abandoned, which closes those of its calls. -/
theorem abandon {host : Host} (accounts : Accounts trace host.batches) (group : BatchGroup) (slot : Slot)
    (state : SlotState)
    (hstate : ({ host with batches := host.batches.remove group }.close
      ((host.batches.callsOf group).map Enrolled.slot)).batches.slots[slot.index]? = some state) :
    state.Accounted (trace ++ [(task, .acted (.abandon group) ())]) slot := by
  have hcloses : ∀ slot ∈ (host.batches.callsOf group).map Enrolled.slot,
      Act.Closes trace task slot (.acted (.abandon group) ()) := by
    intro slot hslot
    obtain ⟨call, hcall, hsame⟩ := List.mem_map.1 hslot
    exact .abandon group (accounts.books.calls group ▸ hcall) hsame
  have hanswer : Act.isAnswer (.acted (.abandon group) ()) = false := rfl
  exact accounts.close { host with batches := host.batches.remove group } rfl hcloses hanswer slot state hstate

/-- The slots stay accounted for when an answer is given: it goes to its slot if that is pending, and nowhere else. -/
theorem answer {host : Host} (accounts : Accounts trace host.batches) (answered : Slot) (outcome : Outcome)
    (slot : Slot) (state : SlotState)
    (hstate : (host.settle answered (.answered outcome)).batches.slots[slot.index]? = some state) :
    state.Accounted (trace ++ [(task, .acted (.answer answered outcome) ())]) slot := by
  rcases Host.slots_settle hstate with ⟨hsame, hsettled⟩ | ⟨hindex, rfl, hpending⟩
  · have accounted := accounts.slots slot state hsame
    cases state with
    | pending =>
        -- the answer was for another slot: this one would have been settled
        intro other hanswers
        rcases hanswers.of_concat with hearlier | ⟨hact, -⟩
        · exact accounted other hearlier
        · cases hact
          have hstill := hsettled rfl
          simp [Batches.isPending, Batches.stateOf, hsame] at hstill
    | answered other => exact Answers.append accounted _
    | closed => exact Closes.append accounted _
  · obtain rfl : answered = slot := congrArg Slot.mk hindex
    refine ⟨trace, task, [], rfl, ?_⟩
    rw [← accounts.books.slots]
    exact (List.getElem?_eq_some_iff.1 hpending).1

/-- The slots stay accounted for whatever action is carried out. -/
theorem react {host later : Host} (accounts : Accounts trace host.batches) {action : Action} {reply : action.Reply}
    (hreact : host.react action = .reply later reply ∨ host.react action = .giveWay later reply) (slot : Slot)
    (state : SlotState) (hstate : later.batches.slots[slot.index]? = some state) :
    state.Accounted (trace ++ [(task, .acted action reply)]) slot := by
  cases action with
  | enroll group args =>
      rcases hreact with hreact | hreact <;> cases hreact
      exact accounts.enroll group args slot state hstate
  | collect group =>
      rcases hreact with hreact | hreact <;> cases hreact
      exact accounts.quiet rfl rfl slot state hstate
  | abandon group =>
      rcases hreact with hreact | hreact <;> cases hreact
      exact accounts.abandon group slot state hstate
  | answer answered outcome =>
      rcases hreact with hreact | hreact <;> cases hreact
      exact accounts.answer answered outcome slot state hstate
  | receive received =>
      have hsame : later.batches.slots = host.batches.slots := by
        simp only [Host.react] at hreact
        split at hreact
        all_goals rcases hreact with hreact | hreact <;> cases hreact <;> rfl
      exact accounts.quiet hsame rfl slot state hstate
  | _ =>
      have hbatches := Host.batches_of_react rfl hreact
      exact accounts.quiet (congrArg Batches.slots hbatches) rfl slot state hstate

/-- What a computation is told of its slot by an act goes back to the acts before. -/
theorem receipt (accounts : Accounts trace run.host.batches) {slot : Slot} {reply : Option Outcome}
    (hborn : slot.index < enrolments trace) (hdoes : run.Does (.acted (.receive slot) reply) next) :
    Receives trace slot reply := by
  cases hdoes with
  | act action resume host reply hrunning hreact =>
      rcases hreact with hreact | hreact
      · exact accounts.receives hborn hreact
      · simp only [Host.react] at hreact
        split at hreact <;> cases hreact

/-- Every act keeps the account of slots. -/
theorem does (accounts : Accounts trace run.host.batches) (watched : Watched answerables (deeds trace task) run)
    (rooted : Rooted run.frames) (hdoes : run.Does act next) :
    Accounts (trace ++ [(task, act)]) next.host.batches where
  books := accounts.books.does hdoes
  slots := by
    -- apart from what is done to the batches, only the end of a computation closes slots
    cases hdoes with
    | drop | complete | giveUp | vacate => exact accounts.close _ rfl (watched.closes rooted rfl rfl) rfl
    | answer | fail | fork =>
        refine accounts.quiet ?_ rfl
        first
          | (unfold Run.answerTop; split <;> rfl)
          | (unfold Run.failTop; split <;> rfl)
    | wait action resume host occasions hrunning hreact =>
        exact accounts.quiet (congrArg Batches.slots (Host.batches_of_wait hreact)) rfl
    | act action resume host reply hrunning hreact => exact accounts.react hreact
    | _ => exact accounts.quiet rfl rfl
  receipts := by
    intro before other slot reply after hsplit hborn
    rcases split_of_append hsplit with ⟨rest, rfl, -⟩ | ⟨rest, rfl, hlast⟩
    · exact accounts.receipts before other slot reply rest rfl hborn
    · cases rest with
      | nil =>
          obtain ⟨hentry, -⟩ := List.cons.inj hlast
          cases hentry
          rw [List.append_nil] at hborn ⊢
          exact accounts.receipt hborn hdoes
      | cons head rest => simp at hlast

end Accounts

/-- The host keeps its slots by the acts of all processes. -/
theorem Batch.Setting.accounts {machine : Machine} {underlying : Nat → Function} {first : Host} {trace : Trace}
    {system : System} (setting : Setting machine underlying) (fresh : Fresh underlying first)
    (runs : Runs machine first trace system) : Accounts trace system.host.batches := by
  refine Runs.books answerables_invariant runs ?_ (fun holds hdoes accounts => accounts.does holds.1 holds.2 hdoes) ?_
  · have hbooks := setting.books fresh (.start runs.new)
    refine ⟨hbooks, ?_, fun before task slot reply after hacts => by simp at hacts⟩
    rw [fresh.batches]
    exact fun _ _ hstate => by cases hstate
  · intro trace system task context action resume reply later runs hcurrent hreact
    exact Host.batches_of_react (setting.isBatch_of_client fresh runs hcurrent) hreact

end EffectMachine
