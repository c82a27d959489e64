import EffectMachine.Proofs.Dispatch.Selection
import EffectMachine.Proofs.Interleaving.Forks

/-!
# Terminal operations

A terminal operation discards the frame that performs it, with all that is pending on it, and hands its operand to the frame
below.

* `Run.Passes` is what becomes of a stack by some acts while its surroundings change, and `Run.Passes.keeps` says that the frames
  below one that stays on the stack keep their computations and what is pending on them.
* `Obtains` is what a frame has of an effect that is handed to it, as long as no frame is discarded for it.
* `Effect.keepsFrames` tells of effects that no frame is discarded for.
* `Discards` puts together what becomes of a terminal operation, and `terminal_discards_one` is the main statement.

The rule on terminal operations looks at the operand only.  One that is started by the operand discards another frame
(`two_discarded_of_started`).
-/

namespace EffectMachine

/-! ## Stacks in changing surroundings -/

/-- What becomes of a stack by some acts, while the host may change in any way. -/
inductive Run.Passes : Run → List Act → Run → Prop
  | done (run : Run) : Passes run [] run
  | host {run final : Run} (host : Host) {acts : List Act} (rest : Passes { run with host } acts final) :
      Passes run acts final
  | act {run next final : Run} {act : Act} {acts : List Act} (hdoes : run.Does act next)
      (rest : Passes next acts final) : Passes run (act :: acts) final

/-- A frame goes on with its computation, and what was pending on it still is. -/
structure Frame.Keeps (frame after : Frame) : Prop where
  progress : after.progress = frame.progress
  tag : after.tag = frame.tag
  pending : frame.defers <:+ after.defers

namespace Frame.Keeps

variable {frame middle after : Frame}

theorem refl (frame : Frame) : frame.Keeps frame :=
  ⟨rfl, rfl, List.suffix_refl _⟩

theorem trans (hfirst : frame.Keeps middle) (hmore : middle.Keeps after) : frame.Keeps after :=
  ⟨hmore.progress.trans hfirst.progress, hmore.tag.trans hfirst.tag, hfirst.pending.trans hmore.pending⟩

theorem absorb (frame : Frame) (outcome : Outcome) : frame.Keeps (frame.absorb outcome) := by
  unfold Frame.absorb
  split
  · split <;> exact ⟨rfl, rfl, List.suffix_refl _⟩
  · exact ⟨rfl, rfl, List.suffix_refl _⟩

/-- A frame that an act is not about goes on. -/
theorem of_beside {act : Act} (hbeside : frame.Beside act after) : frame.Keeps after := by
  cases hbeside with
  | marked =>
      unfold Frame.markCanceled
      split <;> exact ⟨rfl, rfl, List.suffix_refl _⟩
  | same | received | robbed => exact ⟨rfl, rfl, List.suffix_refl _⟩

theorem all_refl (frames : List Frame) : List.Forall₂ Frame.Keeps frames frames :=
  List.forall₂_same.2 fun frame _ => refl frame

theorem all_trans {frames between later : List Frame} (hfirst : List.Forall₂ Frame.Keeps frames between)
    (hmore : List.Forall₂ Frame.Keeps between later) : List.Forall₂ Frame.Keeps frames later := by
  induction hfirst generalizing later with
  | nil => exact hmore
  | cons hhead _ ih =>
      cases hmore with
      | cons hnext hrest => exact .cons (hhead.trans hnext) (ih hrest)

end Frame.Keeps

namespace Run

variable {run next final : Run} {act : Act} {acts mid more : List Act}

theorem Chain.passes (chain : run.Chain acts final) : run.Passes acts final := by
  induction chain with
  | done run => exact .done run
  | quiet host _ _ ih => exact .host host ih
  | act hdoes _ ih => exact .act hdoes ih

namespace Passes

theorem append (hfirst : run.Passes acts next) (hmore : next.Passes more final) : run.Passes (acts ++ more) final := by
  induction hfirst with
  | done run => exact hmore
  | host host _ ih => exact .host host (ih hmore)
  | act hdoes _ ih => exact .act hdoes (ih hmore)

/-- A stack carries out each of its acts. -/
theorem split_act (passes : run.Passes acts final) (hacts : acts = mid ++ act :: more) :
    ∃ before after, run.Passes mid before ∧ before.Does act after ∧ after.Passes more final := by
  induction passes generalizing mid with
  | done run => simp at hacts
  | host host _ ih =>
      obtain ⟨before, after, hfirst, hrest⟩ := ih hacts
      exact ⟨before, after, .host host hfirst, hrest⟩
  | act hdoes rest ih =>
      cases mid with
      | nil =>
          obtain ⟨rfl, rfl⟩ := List.cons.inj hacts
          exact ⟨_, _, .done _, hdoes, rest⟩
      | cons head mid =>
          obtain ⟨rfl, hlater⟩ := List.cons.inj hacts
          obtain ⟨before, after, hfirst, hrest⟩ := ih hlater
          exact ⟨before, after, .act hdoes hfirst, hrest⟩

theorem tracks (passes : run.Passes more final) (tracks : Tracks acts run) : Tracks (acts ++ more) final := by
  induction passes generalizing acts with
  | done run => rwa [List.append_nil]
  | host host _ ih => exact ih (tracks.host host)
  | act hdoes _ ih =>
      rw [List.append_cons]
      exact ih (tracks.does hdoes)

/-- A frame that is gone does not come back, and does nothing. -/
theorem gone (passes : run.Passes more final) (tracks : Tracks acts run) {number : Nat}
    (hnext : number < (Roll.after acts).next) (hgone : number ∉ (Roll.after acts).live) :
    number ∉ (Roll.after (acts ++ more)).live ∧ life (acts ++ more) number = life acts number := by
  induction passes generalizing acts with
  | done run =>
      rw [List.append_nil]
      exact ⟨hgone, rfl⟩
  | host host _ ih => exact ih (tracks.host host) hnext hgone
  | @act run next final act more hdoes _ ih =>
      have hlater : number < (Roll.after (acts ++ [act])).next :=
        Nat.lt_of_lt_of_le hnext (Roll.next_after_le_append acts [act])
      have hnever : number ∉ (Roll.after (acts ++ [act])).live := by
        rw [Roll.after_concat]
        cases act with
        | pushed computation tag =>
            intro hmem
            rcases List.mem_cons.1 hmem with rfl | hbelow
            · exact Nat.lt_irrefl _ hnext
            · exact hgone hbelow
        | dropped | left => exact fun hmem => hgone (List.mem_of_mem_tail hmem)
        | _ => exact hgone
      obtain ⟨hfinal, hlife⟩ := ih (tracks.does hdoes) hlater hnever
      rw [List.append_cons]
      exact ⟨hfinal, hlife.trans (life_of_other (tracks.actor_ne act hnext hgone))⟩

end Passes
end Run

/-- What is related to two lists in a row are two lists in a row. -/
theorem exists_append_of_forall₂ {α β : Type} {R : α → β → Prop} {first second : List α} {all : List β}
    (hall : List.Forall₂ R (first ++ second) all) :
    ∃ left right, all = left ++ right ∧ List.Forall₂ R first left ∧ List.Forall₂ R second right := by
  induction first generalizing all with
  | nil => exact ⟨[], all, rfl, .nil, hall⟩
  | cons head first ih =>
      cases hall with
      | cons hhead hrest =>
          obtain ⟨left, right, rfl, hfirst, hsecond⟩ := ih hrest
          exact ⟨_, right, rfl, .cons hhead hfirst, hsecond⟩

/-- On a stack, a frame stands above others, which have these numbers. -/
def StandsOn (acts : List Act) (run : Run) (child : Nat) (below : List Nat) (lower : List Frame) : Prop :=
  ∃ above upper, (Roll.after acts).live = above ++ child :: below ∧ run.frames = upper ++ lower ∧
    upper.length = above.length + 1

/-- The frames below one that stays where it is go on. -/
theorem StandsOn.does {acts : List Act} {run next : Run} {act : Act} {child : Nat} {below : List Nat} {lower : List Frame}
    (standsOn : StandsOn acts run child below lower) (tracks : Tracks acts run) (hdoes : run.Does act next)
    (hstays : child ∈ (Roll.after (acts ++ [act])).live) :
    ∃ later, StandsOn (acts ++ [act]) next child below later ∧ List.Forall₂ Frame.Keeps lower later := by
  obtain ⟨numbers, upper, hlive, hframes, hlength⟩ := standsOn
  rw [Roll.after_concat] at hstays
  have hfrom (later : List Frame) (hlater : List.Forall₂ Frame.Keeps lower later)
      (habove : ∃ above upper, ((Roll.after acts).apply act).live = above ++ child :: below ∧
        next.frames = upper ++ later ∧ upper.length = above.length + 1) :
      ∃ later, StandsOn (acts ++ [act]) next child below later ∧ List.Forall₂ Frame.Keeps lower later :=
    ⟨later, by rwa [StandsOn, Roll.after_concat], hlater⟩
  have hbeside {frames after : List Frame} (hbeside : BesideAll (frames ++ lower) act after) :
      ∃ left right, after = left ++ right ∧ left.length = frames.length ∧ List.Forall₂ Frame.Keeps lower right := by
    obtain ⟨left, right, rfl, hleft, hright⟩ := exists_append_of_forall₂ hbeside
    exact ⟨left, right, rfl, hleft.length_eq.symm, hright.imp fun _ _ => Frame.Keeps.of_beside⟩
  have hdone := hdoes.frames
  rw [hframes] at hdone
  cases upper with
  | nil => simp at hlength
  | cons top upper =>
      have hshort : upper.length = numbers.length := by simpa using hlength
      -- A frame that is taken off is not the one that stays.
      have hpopped (hroll : (Roll.after acts).apply act = { Roll.after acts with live := (Roll.after acts).live.tail }) :
          ∃ number others, numbers = number :: others ∧
            ((Roll.after acts).apply act).live = others ++ child :: below := by
        rw [hroll] at hstays ⊢
        cases numbers with
        | cons number others => exact ⟨number, others, rfl, by simp [hlive]⟩
        | nil =>
            have hfalling := tracks.sound.falling
            rw [hlive] at hfalling
            have hmem : child ∈ below := by simpa [hlive] using hstays
            exact absurd ((List.pairwise_cons.1 hfalling).1 child hmem) (Nat.lt_irrefl _)
      generalize hafter : next.frames = after at hdone hfrom
      cases hdone with
      | push _ computation tag =>
          refine hfrom lower (Frame.Keeps.all_refl lower) ⟨(Roll.after acts).next :: numbers, _ :: top :: upper, ?_, rfl, ?_⟩
          · simp [Roll.apply, hlive]
          · simp [hshort]
      | drop =>
          obtain ⟨number, others, rfl, hroll⟩ := hpopped rfl
          exact hfrom lower (Frame.Keeps.all_refl lower) ⟨others, upper, hroll, rfl, by simpa using hshort⟩
      | leave _ hfinished hdefers hmarks =>
          obtain ⟨number, others, rfl, hroll⟩ := hpopped rfl
          obtain ⟨left, right, rfl, hleft, hright⟩ := hbeside hmarks
          exact hfrom right hright ⟨others, left, hroll, rfl, by simpa [hleft] using hshort⟩
      | top hown hmarks =>
          obtain ⟨left, right, rfl, hleft, hright⟩ := hbeside hmarks
          refine hfrom right hright ⟨numbers, _ :: left, ?_, rfl, by simp [hleft, hshort]⟩
          rw [hown.apply_eq, hlive]

/-- The frames below one that stays on the stack keep their computations and what is pending on them. -/
theorem Run.Passes.keeps {run final : Run} {acts more : List Act} {child : Nat} {below : List Nat} {lower : List Frame}
    (passes : run.Passes more final) (tracks : Tracks acts run) (standsOn : StandsOn acts run child below lower)
    (hstays : child ∈ (Roll.after (acts ++ more)).live) :
    ∃ later, StandsOn (acts ++ more) final child below later ∧ List.Forall₂ Frame.Keeps lower later := by
  induction passes generalizing acts lower with
  | done run =>
      rw [List.append_nil]
      exact ⟨lower, standsOn, Frame.Keeps.all_refl lower⟩
  | host host _ ih => exact ih (tracks.host host) standsOn hstays
  | @act run next final act more hdoes rest ih =>
      have hnext : child < (Roll.after (acts ++ [act])).next := by
        obtain ⟨numbers, upper, hlive, -⟩ := standsOn
        refine Nat.lt_of_lt_of_le (tracks.sound.bounded child ?_) (Roll.next_after_le_append acts [act])
        simp [hlive]
      rw [List.append_cons] at hstays ⊢
      have hmiddle : child ∈ (Roll.after (acts ++ [act])).live := by
        by_contra hgone
        exact (rest.gone (tracks.does hdoes) hnext hgone).1 hstays
      obtain ⟨middle, hmiddle, hkeeps⟩ := standsOn.does tracks hdoes hmiddle
      obtain ⟨later, hfinal, hlater⟩ := ih (tracks.does hdoes) hmiddle hstays
      exact ⟨later, hfinal, Frame.Keeps.all_trans hkeeps hlater⟩

/-! ## Effects that are handed to a frame -/

/-- What becomes of the frames of a stack when an effect is handed to the top one, unless a frame is discarded for it: the
acts, and the frames after them. -/
inductive Obtains (parent : Frame) (rest : List Frame) : List Act → List Frame → Prop
  /-- A new frame services the effect. -/
  | serviced (computation : Computation) (tag : Option HandlerTag) :
      Obtains parent rest [.pushed computation tag] (.ofComputation computation tag :: parent :: rest)
  /-- The effect has its value at once. -/
  | answered (value : Value) : Obtains parent rest [.answered value] (parent.absorb (.ok value) :: rest)
  | forked (effect : Effect) (task : TaskId) :
      Obtains parent rest [.forked effect] (parent.absorb (.ok (.task task)) :: rest)
  /-- The effect cannot be dispatched. -/
  | failed (error : Error) : Obtains parent rest [.failed error] (parent.absorb (.error error) :: rest)
  /-- The effect is pending from now on. -/
  | deferred (effect : Effect) :
      Obtains parent rest [.deferred effect] ({ parent with defers := effect :: parent.defers } :: rest)
  /-- The frame takes the error of the one below. -/
  | recovered {second : Frame} {others : List Frame} (error : Error) (hrest : rest = second :: others)
      (hfinished : second.isFinished = true) (herror : second.result = .error error) :
      Obtains parent rest [.caught error]
        ({ parent with result := .ok (.error error) } :: { second with result := .ok .null } :: others)
  /-- There is no error to recover. -/
  | nothing : Obtains parent rest [] (parent :: rest)

namespace Obtains

variable {parent : Frame} {rest frames : List Frame} {told : List Act}

/-- All frames go on, below at most one new frame. -/
theorem keeps (obtains : Obtains parent rest told frames) :
    ∃ fresh below, frames = fresh ++ below ∧ fresh.length ≤ 1 ∧ List.Forall₂ Frame.Keeps (parent :: rest) below := by
  have hrest := Frame.Keeps.all_refl rest
  cases obtains with
  | serviced computation tag => exact ⟨[_], _, rfl, Nat.le_refl _, Frame.Keeps.all_refl _⟩
  | answered | forked | failed => exact ⟨[], _, rfl, Nat.zero_le _, .cons (.absorb _ _) hrest⟩
  | deferred effect => exact ⟨[], _, rfl, Nat.zero_le _, .cons ⟨rfl, rfl, List.suffix_cons _ _⟩ hrest⟩
  | @recovered second others error hsecond =>
      subst hsecond
      have hsame (frame : Frame) (result : Outcome) : frame.Keeps { frame with result } := ⟨rfl, rfl, List.suffix_refl _⟩
      exact ⟨[], _, rfl, Nat.zero_le _, .cons (hsame _ _) (.cons (hsame _ _) (Frame.Keeps.all_refl others))⟩
  | nothing => exact ⟨[], _, rfl, Nat.zero_le _, Frame.Keeps.all_refl _⟩

/-- This is what an act of handling an effect does that discards nothing. -/
theorem of_does {run next : Run} {act : Act} (hdoes : run.Does act next) (hhandles : act.handles = true)
    (hkept : act ≠ .dropped) : Obtains run.stack.top run.stack.below [act] next.frames := by
  cases hdoes with
  | push computation tag => exact .serviced computation tag
  | drop => exact absurd rfl hkept
  | defer effect => exact .deferred effect
  | answer value =>
      rw [Run.frames, Run.stack_answerTop]
      exact .answered value
  | fail error =>
      rw [Run.frames, Run.stack_failTop]
      exact .failed error
  | fork effect hscheduled =>
      rw [Run.frames, Run.stack_answerTop]
      exact .forked effect _
  | «catch» parent rest error hbelow hfinished herror =>
      rw [hbelow]
      exact .recovered error rfl hfinished herror
  | _ => cases hhandles

end Obtains

/-- Handling an effect is over with the first act that discards no frame. -/
theorem Mode.Allows.eq_nil {act : Act} {after : List Act} (allows : Mode.handling.Allows (act :: after))
    (hhandles : ∀ other ∈ act :: after, other.handles = true) (hkept : act ≠ .dropped) : after = [] := by
  obtain ⟨hown, hothers⟩ := List.forall_mem_cons.1 hhandles
  obtain ⟨mode, hmode, hrest⟩ := allows
  obtain rfl : Mode.busy = mode := by
    cases act with
    | dropped => exact absurd rfl hkept
    | _ => first | exact Option.some.inj hmode | cases hown
  cases after with
  | nil => rfl
  | cons next after =>
      obtain ⟨later, hnext, -⟩ := hrest
      have hhandled := hothers next List.mem_cons_self
      have hnone : Mode.busy.next next = none := by
        cases next <;> first | rfl | cases hhandled
      rw [hnone] at hnext
      cases hnext

/-- What comes of an effect for which no frame is discarded. -/
theorem Run.Chain.obtains {run final : Run} {told : List Act} (chain : run.Chain told final)
    (allows : Mode.handling.Allows told) (hhandles : ∀ act ∈ told, act.handles = true) (hkept : .dropped ∉ told) :
    Obtains run.stack.top run.stack.below told final.frames := by
  cases told with
  | nil =>
      rw [Run.frames, chain.stack_eq]
      exact .nothing
  | cons act after =>
      have hact : act ≠ .dropped := fun hsame => hkept (hsame ▸ List.mem_cons_self)
      obtain rfl := allows.eq_nil hhandles hact
      obtain ⟨before, next, hfirst, hdoes, hrest⟩ := chain.split_act (List.nil_append [act]).symm
      have obtains := Obtains.of_does hdoes (hhandles act List.mem_cons_self) hact
      rw [hfirst.stack_eq, Run.frames, ← hrest.stack_eq] at obtains
      exact obtains

/-- Whether no frame is discarded for an effect: neither it nor what it starts or delegates is a terminal operation or a
delegation in place. -/
def Effect.keepsFrames : Effect → Bool
  | .terminal _ | .next _ true => false
  | .start inner | .next inner false => inner.keepsFrames
  | _ => true

namespace Machine

variable {machine : Machine}

theorem Dispatches.ne_dropped {effect : Effect} {first : Nat} {run : Run} {act : Act}
    (dispatches : machine.Dispatches effect first run act) (hkeeps : effect.keepsFrames = true) : act ≠ .dropped := by
  induction dispatches with
  | start _ ih | next _ _ ih => exact ih hkeeps
  | terminal | terminated | replace | replaced => cases hkeeps
  | _ => exact fun hact => nomatch hact

/-- Nor is a frame discarded when such an effect cannot be dispatched. -/
theorem dropped_not_mem_told (machine : Machine) {effect : Effect} (hkeeps : effect.keepsFrames = true) (run : Run) :
    .dropped ∉ machine.dispatchActs effect 0 run ++ failureActs (machine.dispatch effect 0 run).failure := by
  intro hmem
  rcases List.mem_append.1 hmem with hdispatched | hfailed
  · exact (dispatches_of_mem hdispatched).ne_dropped hkeeps rfl
  · obtain ⟨error, hact⟩ := failed_of_mem_failureActs hfailed
    cases hact

/-- Without handlers of terminal operations, one that may pass discards the top frame and dispatches its operand on the
frames below. -/
theorem handleActs_terminal (hterminal : machine.registry.hasHandlers Kind.terminal = false) {effect : Effect} {run : Run}
    {later : Host} {parent : Frame} {rest : List Frame}
    (hadmits : machine.registry.Admits run.host (Effect.terminal effect).chain later)
    (hbelow : run.stack.below = parent :: rest) :
    ∃ reached : Run, reached.stack = { run.stack with top := parent, below := rest } ∧
      machine.handleActs (.terminal effect) run = .dropped ::
        (machine.dispatchActs effect 0 reached ++ failureActs (machine.dispatch effect 0 reached).failure) := by
  obtain ⟨reached, hterminated⟩ := exists_terminateTop { run with host := later } (by simp [hbelow])
  have hstack : reached.stack = { run.stack with top := parent, below := rest } := by
    unfold Run.terminateTop at hterminated
    rw [hbelow] at hterminated
    cases hterminated
    simp only
    split <;> rfl
  have hdispatch : machine.dispatch (.terminal effect) 0 { run with host := later } = machine.dispatch effect 0 reached := by
    rw [(machine.dispatch_eq_core (.terminal effect) hterminal 0 _).1]
    simp only [core, hterminated]
  have hacts : machine.dispatchActs (.terminal effect) 0 { run with host := later } =
      .dropped :: machine.dispatchActs effect 0 reached := by
    rw [(machine.dispatch_eq_core (.terminal effect) hterminal 0 _).2]
    simp only [coreActs, hterminated]
  refine ⟨reached, hstack, ?_⟩
  simp only [handleActs, Registry.validate_eq, hadmits.run_eq, hdispatch, hacts, List.cons_append]

end Machine

/-! ## The main statement -/

section Histories

variable {machine : Machine} {context : Context} {signal : Option TaskId} {opening : Effect}
variable {acts before after : List Act} {run : Run}

/-- A computation that performs an effect waits while it is handled, unless a cancellation is noticed first. -/
theorem History.performs (history : History machine context signal opening acts run) {effect : Effect}
    (hacts : acts = before ++ .performed effect :: after) :
    (∃ rest, after = .noticed :: rest) ∨
      ∃ asking more, Moment machine context signal opening (before ++ [.performed effect]) asking ∧
        asking.stack.below ≠ [] ∧ after = machine.handleActs effect asking ++ more ∧
        (machine.handle effect asking).Passes more run := by
  induction history generalizing after with
  | begun host =>
      have hmem : .performed effect ∈ machine.handleActs opening { stack := { context, signal }, host } := by simp [hacts]
      exact absurd (machine.handles_handleActs _ _ _ hmem) Bool.false_ne_true
  | @stepped acts run history habove host ih =>
      rcases split_of_append hacts with ⟨rest, hearlier, rfl⟩ | ⟨seen, rfl, hsteps⟩
      · rcases ih hearlier with ⟨rest, rfl⟩ | ⟨asking, more, moment, hbelow, rfl, hpasses⟩
        · exact .inl ⟨_, rfl⟩
        · have hstep : run.Passes (machine.stepActs { run with host }) (machine.step { run with host }).run :=
            .host host (machine.step_chain _).passes
          exact .inr ⟨asking, _, moment, hbelow, List.append_assoc .., hpasses.append hstep⟩
      · obtain ⟨stages, -, stands⟩ := history.stands
        have hkept (body : Body) (hrunning : run.stack.top.progress = .running body) :
            run.stack.top.cancellation = .none := stands.kept_of_running hrunning
        obtain ⟨rfl, resume, hrunning, rfl | rfl⟩ := @Machine.handled_stepActs machine { run with host } _ _ _ hkept hsteps
        · exact .inl ⟨[], rfl⟩
        · have hcalm : .noticed ∉ machine.stepActs { run with host } := by
            rw [hsteps]
            intro hmem
            rcases List.mem_cons.1 hmem with hsame | hhandled
            · cases hsame
            · exact absurd (machine.handles_handleActs _ _ _ hhandled) Bool.false_ne_true
          have hstep := (Machine.step_of_perform hrunning (hkept _ hrunning) hcalm).2
          refine .inr ⟨Run.asking { run with host } resume, [], ?_, habove, (List.append_nil _).symm, ?_⟩
          · rw [List.append_nil]
            refine .within history habove host hsteps (.single (.perform _ effect resume hrunning)) ?_
            rw [hstep]
            exact machine.handle_chain effect _
          · rw [hstep]
            exact .done _

end Histories

/-- Whenever a frame leaves that stands on others, these have gone on, and the first of them takes over what the frame has
come to. -/
def Delivers (sofar : List Act) (next : Run) (more : List Act) (run : Run) (child : Nat) (lower : List Frame) : Prop :=
  ∀ mid later, more = mid ++ .left :: later → (Roll.after (sofar ++ mid)).live.head? = some child →
    ∃ leaving left parent rest, next.Passes mid leaving ∧ leaving.Does .left left ∧ left.Passes later run ∧
      leaving.stack.below = parent :: rest ∧ List.Forall₂ Frame.Keeps lower (parent :: rest) ∧
      left.stack.top = parent.absorb leaving.stack.top.result ∧ left.stack.below = rest

/-- A frame that stands on others delivers what it comes to. -/
theorem Run.Passes.delivers {next run : Run} {sofar more : List Act} (passes : next.Passes more run)
    (tracks : Tracks sofar next) {child : Nat} {below : List Nat} {frame : Frame} {lower : List Frame}
    (hlive : (Roll.after sofar).live = child :: below) (hframes : next.frames = frame :: lower) :
    Delivers sofar next more run child lower := by
  rintro mid later hmore hhead
  obtain ⟨leaving, left, hmid, hleaves, hlater⟩ := passes.split_act hmore
  have hstands : StandsOn sofar next child below lower := ⟨[], [frame], hlive, hframes, rfl⟩
  obtain ⟨others, ⟨above, upper, hnow, hall, hlength⟩, hkeeps⟩ :=
    hmid.keeps tracks hstands (List.mem_of_mem_head? hhead)
  have hnone : above = [] := by
    have hfalling := (hmid.tracks tracks).sound.falling
    rw [hnow] at hhead hfalling
    cases above with
    | nil => rfl
    | cons top above =>
        obtain rfl : top = child := Option.some.inj hhead
        exact absurd ((List.pairwise_cons.1 hfalling).1 top (by simp)) (Nat.lt_irrefl _)
  subst hnone
  obtain ⟨top, rfl⟩ := List.length_eq_one_iff.1 hlength
  obtain ⟨-, rfl⟩ := List.cons.inj hall
  cases hleaves with
  | leave parent rest hbelow hfinished hdefers =>
      exact ⟨leaving, _, parent, rest, hmid, .leave _ parent rest hbelow hfinished hdefers, hlater, hbelow,
        hbelow ▸ hkeeps, rfl, rfl⟩

/-- What becomes of a terminal operation that a frame performs, where `parent` is the frame below and `rest` are the others.
After the frame was discarded come the acts `told` of handing the operand to the frame below, and then all others. -/
structure Discards (machine : Machine) (acts before told more : List Act) (effect : Effect) (number : Nat) (asking : Run)
    (parent : Frame) (rest : List Frame) (run : Run) : Prop where
  /-- The frame does nothing more: its computation is not resumed, and nothing that was pending on it is started. -/
  gone : life acts number = life before number ++ [.performed (.terminal effect), .dropped]
  /-- The operand is dispatched on the stack without the frame. -/
  dispatched : ∃ reached : Run, reached.stack = { asking.stack with top := parent, below := rest } ∧
    told = machine.dispatchActs effect 0 reached ++ Machine.failureActs (machine.dispatch effect 0 reached).failure
  /-- No other frame is discarded, unless it comes to another terminal operation or to a delegation in place. -/
  alone : effect.keepsFrames = true → .dropped ∉ told
  /-- Then the frames below go on, and the first of them has the outcome of the operand at once, or when the frame leaves
  that services it. -/
  handed : .dropped ∉ told → ∃ next, asking.Passes (.dropped :: told) next ∧ next.Passes more run ∧
    (∃ fresh below, next.frames = fresh ++ below ∧ fresh.length ≤ 1 ∧ List.Forall₂ Frame.Keeps (parent :: rest) below) ∧
    Obtains parent rest told next.frames ∧
    ∀ computation tag, told = [.pushed computation tag] →
      Delivers (before ++ .performed (.terminal effect) :: .dropped :: told) next more run (Roll.after before).next
        (parent :: rest)

section Discarding

variable {run next final : Run} {acts more : List Act} {number : Nat} {below : List Nat}

/-- The frames below are left when the top one is discarded. -/
theorem Roll.live_of_dropped (hlive : (Roll.after acts).live = number :: below) :
    (Roll.after (acts ++ [.dropped])).live = below := by
  rw [Roll.after_concat, Roll.apply, hlive]
  rfl

/-- The life of a frame is over when it is discarded. -/
theorem Run.Passes.life_of_dropped (tracks : Tracks acts run) (hlive : (Roll.after acts).live = number :: below)
    (hdrop : run.Passes [.dropped] next) (passes : next.Passes more final) :
    life (acts ++ .dropped :: more) number = life acts number ++ [.dropped] := by
  have hnext : number < (Roll.after (acts ++ [.dropped])).next :=
    Nat.lt_of_lt_of_le (tracks.sound.bounded number (hlive ▸ List.mem_cons_self)) (Roll.next_after_le_append _ _)
  have hgone : number ∉ (Roll.after (acts ++ [.dropped])).live := by
    have hfalling := tracks.sound.falling
    rw [hlive] at hfalling
    rw [Roll.live_of_dropped hlive]
    exact fun hmem => Nat.lt_irrefl _ ((List.pairwise_cons.1 hfalling).1 number hmem)
  rw [List.append_cons, (passes.gone (hdrop.tracks tracks) hnext hgone).2]
  exact life_of_head (hlive ▸ rfl) (by simp)

/-- What services an effect stands on the frame that the effect is handed to, and delivers what it comes to. -/
theorem Obtains.delivers {parent : Frame} {rest : List Frame} {computation : Computation} {tag : Option HandlerTag}
    (obtains : Obtains parent rest [.pushed computation tag] next.frames)
    (tracks : Tracks (acts ++ [.pushed computation tag]) next) (passes : next.Passes more final) :
    Delivers (acts ++ [.pushed computation tag]) next more final (Roll.after acts).next (parent :: rest) := by
  have hframes : next.frames = .ofComputation computation tag :: parent :: rest := by
    generalize next.frames = frames at obtains
    cases obtains
    rfl
  have hlive : (Roll.after (acts ++ [.pushed computation tag])).live = (Roll.after acts).next :: (Roll.after acts).live := by
    rw [Roll.after_concat]
    rfl
  exact passes.delivers tracks hlive hframes

end Discarding

/-- A terminal operation discards the frame that performs it, and only that one unless its operand comes to another terminal
operation or to a delegation in place; the frames below go on, and the outcome of the operand is delivered to the first of
them. -/
theorem terminal_discards_one {machine : Machine} (hterminal : machine.registry.hasHandlers Kind.terminal = false)
    {context : Context} {signal : Option TaskId} {opening : Effect} {acts before after : List Act} {run : Run}
    (history : History machine context signal opening acts run) {effect : Effect} {number : Nat}
    (hacts : acts = before ++ .performed (.terminal effect) :: after)
    (hhead : (Roll.after before).live.head? = some number) :
    (∃ rest, after = .noticed :: rest) ∨
      ∃ asking, Moment machine context signal opening (before ++ [.performed (.terminal effect)]) asking ∧
        ∀ later, machine.registry.Admits asking.host (Effect.terminal effect).chain later →
          ∃ told more parent rest, after = .dropped :: (told ++ more) ∧ asking.stack.below = parent :: rest ∧
            Discards machine acts before told more effect number asking parent rest run := by
  rcases history.performs hacts with hnoticed | ⟨asking, more, moment, habove, rfl, hpasses⟩
  · exact .inl hnoticed
  refine .inr ⟨asking, moment, fun later hadmits => ?_⟩
  obtain ⟨parent, rest, hbelow⟩ := List.exists_cons_of_ne_nil habove
  obtain ⟨reached, hreached, hhandled⟩ := Machine.handleActs_terminal hterminal hadmits hbelow
  have hkeeps (hkeeps : effect.keepsFrames = true) := machine.dropped_not_mem_told hkeeps reached
  have allows := machine.allows_handleActs (.terminal effect) asking
  have hhandles := machine.handles_handleActs (.terminal effect) asking
  have hchain := machine.handle_chain (.terminal effect) asking
  rw [hhandled] at allows hhandles hchain
  generalize htold : machine.dispatchActs effect 0 reached ++
    Machine.failureActs (machine.dispatch effect 0 reached).failure = told at hhandled allows hhandles hchain hkeeps
  refine ⟨told, more, parent, rest, by rw [hhandled]; rfl, hbelow, ?_⟩
  -- the frame is taken off, and the operand is handled on the stack below
  obtain ⟨ready, dropped, hready, hdrops, htells⟩ := hchain.split_act (List.nil_append (.dropped :: told)).symm
  have hframes : dropped.stack.top = parent ∧ dropped.stack.below = rest := by
    cases hdrops with
    | drop first others hfirst =>
        rw [hready.stack_eq, hbelow] at hfirst
        cases hfirst
        exact ⟨rfl, rfl⟩
  have hdrop : asking.Passes [.dropped] dropped := hready.passes.append (.act hdrops (.done _))
  have tracks : Tracks (before ++ [.performed (.terminal effect)]) asking := (moment.watched lives).tracks
  obtain ⟨below, hlive⟩ := List.head?_eq_some_iff.1 hhead
  have hperformed : (Roll.after (before ++ [.performed (.terminal effect)])).live = number :: below := by
    rw [Roll.after_concat]
    exact hlive
  refine ⟨?_, ⟨reached, hreached, htold.symm⟩, hkeeps, fun hkept => ?_⟩
  · have hlife := Run.Passes.life_of_dropped tracks hperformed hdrop (htells.passes.append hpasses)
    rw [life_of_head hhead (by simp)] at hlife
    rw [hacts, hhandled]
    simpa using hlife
  · obtain ⟨mode, hmode, hallowed⟩ := allows
    obtain rfl : Mode.handling = mode := Option.some.inj hmode
    have obtains := htells.obtains hallowed (fun act hmem => hhandles act (List.mem_cons_of_mem _ hmem)) hkept
    rw [hframes.1, hframes.2] at obtains
    refine ⟨_, hdrop.append htells.passes, hpasses, obtains.keeps, obtains, ?_⟩
    rintro computation tag rfl
    have hserved := htells.passes.tracks (hdrop.tracks tracks)
    have hdelivers := obtains.delivers hserved hpasses
    have hnumber : (Roll.after (before ++ [.performed (.terminal effect)] ++ [.dropped])).next = (Roll.after before).next := by
      rw [Roll.after_concat, Roll.after_concat]
      rfl
    rw [hnumber] at hdelivers
    simpa using hdelivers

/-! ## Sample runs -/

namespace Deferring

/-- A computation that runs another one, which defers an effect and then performs a terminal operation. -/
def replaced (effect : Effect) : Effect :=
  .bare ⟨some "outer", .perform (.bare ⟨some "inner", .andThen (.defer (.bare (.ready .null))) fun _ =>
    .perform (.terminal effect) .done⟩) .done⟩

/-- What it does on a host without other processes. -/
def replacedDeeds (effect : Effect) : List Act × Run :=
  Machine.bare.settle (.blank 0) (replaced effect) {} 20

end Deferring

open Deferring in
/-- A computation is started in place of the inner one, whose deferred effect is lost. -/
theorem terminal_discards_one_started :
    ∃ asking told more parent rest, Discards Machine.bare (replacedDeeds (.start (.bare (.ready (.int 7))))).1
      ((replacedDeeds (.start (.bare (.ready (.int 7))))).1.take 8) told more (.start (.bare (.ready (.int 7)))) 2 asking
      parent rest (replacedDeeds (.start (.bare (.ready (.int 7))))).2 := by
  have history := History.settle Machine.bare (.blank 0) (replaced (.start (.bare (.ready (.int 7))))) {} 20
  have hsplit : (replacedDeeds (.start (.bare (.ready (.int 7))))).1 =
      (replacedDeeds (.start (.bare (.ready (.int 7))))).1.take 8 ++
        .performed (.terminal (.start (.bare (.ready (.int 7))))) ::
          (replacedDeeds (.start (.bare (.ready (.int 7))))).1.drop 9 := rfl
  have hhead : (Roll.after ((replacedDeeds (.start (.bare (.ready (.int 7))))).1.take 8)).live.head? = some 2 := rfl
  rcases terminal_discards_one rfl history hsplit hhead with ⟨rest, hnoticed⟩ | ⟨asking, -, hdiscards⟩
  · cases hnoticed
  · obtain ⟨told, more, parent, rest, -, -, discards⟩ := hdiscards asking.host
      (Registry.admits_of_validators rfl (by simp [Effect.chain, Registry.terminalRefusal]) asking.host)
    exact ⟨asking, told, more, parent, rest, discards⟩

open Deferring in
/-- A terminal operation that is started by the operand of another one discards the outer computation as well, which is
never resumed: the stack settles with what was started. -/
theorem two_discarded_of_started (host : Host) :
    (∃ later, Machine.bare.registry.Admits host
      (Effect.terminal (.start (.terminal (.bare (.ready (.int 7)))))).chain later) ∧
    .dropped ∈ life (replacedDeeds (.start (.terminal (.bare (.ready (.int 7)))))).1 2 ∧
    .dropped ∈ life (replacedDeeds (.start (.terminal (.bare (.ready (.int 7)))))).1 1 ∧
    (replacedDeeds (.start (.terminal (.bare (.ready (.int 7)))))).2.stack.below = [] ∧
    (replacedDeeds (.start (.terminal (.bare (.ready (.int 7)))))).2.stack.outcome = .ok (.int 7) := by
  have hinner : (life (replacedDeeds (.start (.terminal (.bare (.ready (.int 7)))))).1 2)[6]? = some .dropped := rfl
  have houter : (life (replacedDeeds (.start (.terminal (.bare (.ready (.int 7)))))).1 1)[3]? = some .dropped := rfl
  have hadmits : Machine.bare.registry.Admits host
      (Effect.terminal (.start (.terminal (.bare (.ready (.int 7)))))).chain host :=
    Registry.admits_of_validators rfl (by simp [Effect.chain, Registry.terminalRefusal]) host
  exact ⟨⟨host, hadmits⟩, List.mem_of_getElem? hinner, List.mem_of_getElem? houter, rfl, rfl⟩

end EffectMachine
