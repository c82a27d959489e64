import EffectMachine.Proofs.Batch.Books
import EffectMachine.Proofs.Batch.Launches

/-!
# Every batch is closed for the call that opened it

On a machine where nobody intercepts or passes on flushes, each flush goes back to the one call that launched it.  When
it collects the batch of its group, the batch is the one that this call opened; nothing has closed it since.

* `LaunchedBy` says which computation launched a flush, and `Batch.ClosesFor` for which call an act closes a batch.
* `Batch.Setting.exists_opener` finds the call that a batch is closed for, and `Batch.Setting.closes_once` says that
  nothing else is closed for it.
* `Batch.Setting.open_until_closed` says that the batch which is closed is the one that this call opened.
-/

namespace EffectMachine

/-- An effect launches a computation. -/
def Effect.LaunchOf (computation : Computation) (effect : Effect) : Prop :=
  effect = .bare computation ∨ effect = .fork (.bare computation)

/-- The computation of a frame was launched by the computation of frame `number` of `task`. -/
inductive LaunchedBy (descent : Descent) (trace : Trace) (task : TaskId) (number : Nat) (computation : Computation) :
    TaskId → Nat → Prop
  /-- In a frame of the same stack. -/
  | here {before after : List Act}
      (hdeeds : deeds trace task = before ++ .performed (.bare computation) :: .pushed computation none :: after)
      (hactor : (Roll.after before).actor (.performed (.bare computation)) = number) :
      LaunchedBy descent trace task number computation task (Roll.after before).next
  /-- As the first computation of a task of its own. -/
  | apart {before after : Trace} {seen : List Act} {forked : TaskId}
      (htrace : trace = before ++ (task, .forked (.bare computation)) :: after)
      (hdeeds : deeds before task = seen ++ [.performed (.fork (.bare computation))])
      (hactor : (Roll.after seen).actor (.performed (.fork (.bare computation))) = number)
      (hbirth : descent.birth forked = some before.length) : LaunchedBy descent trace task number computation forked 1

namespace Batch

/-- An act closes the batch of a group for the call that is served in frame `number` of `opener`: it abandons the batch
there, or the flush collects it that was launched there. -/
inductive ClosesFor (underlying : Nat → Function) (descent : Descent) (trace before : Trace) (task opener : TaskId)
    (number : Nat) (group : BatchGroup) : Act → Prop
  | collect {window place : Nat} (calls : List Enrolled)
      (hactor : (Roll.after (deeds before task)).actor (.acted (.collect group) calls) = place)
      (hlaunched : LaunchedBy descent trace opener number (flush group (underlying group.definition) window) task place) :
      ClosesFor underlying descent trace before task opener number group (.acted (.collect group) calls)
  | abandon (htask : task = opener) (hactor : (Roll.after (deeds before task)).actor (.acted (.abandon group) ()) = number) :
      ClosesFor underlying descent trace before task opener number group (.acted (.abandon group) ())

/-- A call opens the batch of its group: the batch was not open, and the call is served in frame `number` of `opener`. -/
structure OpensAs (before : Trace) (opener : TaskId) (number : Nat) (group : BatchGroup) (args : List Value)
    (enrolment : Enrolment) : Prop where
  opened : enrolment.opened = true
  actor : (Roll.after (deeds before opener)).actor (.acted (.enroll group args) enrolment) = number

variable {machine : Machine} {underlying : Nat → Function} {first : Host} {trace : Trace} {system : System}
variable {descent : Descent} {task opener : TaskId} {number place : Nat} {group : BatchGroup} {computation : Computation}

/-- A flush is launched as the effect that calls launch. -/
theorem launch_of_launchOf {window : Nat} {function : Function} {effect : Effect}
    (hlaunch : effect.LaunchOf computation) (heffect : effect = launch group function window) :
    computation = flush group function window := by
  unfold launch at heffect
  split at heffect <;> rcases hlaunch with rfl | rfl
  · exact Effect.bare.inj heffect
  · cases heffect
  · cases heffect
  · exact Effect.bare.inj (Effect.fork.inj heffect)

/-- Flushes are not fair unless they may be passed on. -/
theorem Flushes.not_fair (hflushes : Flushes underlying computation) {effect : Effect}
    (hlaunch : effect.LaunchOf computation) : ¬ effect.Fair underlying withheld := by
  have hordinary (hfair : computation.Fair underlying withheld) : (Act.pushed computation none).Ordinary underlying withheld :=
    .inl hfair
  rcases hlaunch with rfl | rfl <;> exact fun hfair => hflushes.not_starts (hordinary hfair) rfl

/-- Every flush was launched by a computation, before it was put on its stack. -/
theorem Lineage.exists_launch {host : Host} (lineage : Lineage machine underlying first descent trace host)
    (hflushes : Flushes underlying computation)
    {before after : Trace} {tag : Option HandlerTag} (htrace : trace = before ++ (task, .pushed computation tag) :: after) :
    ∃ opener number earlier effect mid, LaunchedBy descent trace opener number computation task (Roll.after (deeds before task)).next ∧
      effect.LaunchOf computation ∧ before = earlier ++ (opener, .performed effect) :: mid ∧
      (Roll.after (deeds earlier opener)).actor (.performed effect) = number := by
  have hdeeds : deeds trace task = deeds before task ++ .pushed computation tag :: deeds after task := by
    rw [htrace, deeds_append]
    simp [deeds]
  have hprov := lineage.provenance task _ _ _ computation hflushes hdeeds rfl
  generalize hown : deeds before task = own at hprov hdeeds
  cases hprov with
  | launched seen hlaunched =>
      cases hlaunched
      obtain ⟨earlier, mid, rfl, rfl, -⟩ := exists_of_deeds hown
      refine ⟨task, _, earlier, _, mid, ?_, .inl rfl, rfl, rfl⟩
      have hroll : (Roll.after (deeds earlier task ++ [.performed (.bare computation)])).next =
          (Roll.after (deeds earlier task)).next := by
        rw [Roll.after_concat]
        rfl
      rw [hroll]
      exact .here (by rw [hdeeds, List.append_assoc]; rfl) rfl
  | @begun earlier later forker hfork hbirth =>
      -- the task was forked before it did anything
      have hforker : deeds trace forker = deeds earlier forker ++ .forked (.bare computation) :: deeds later forker := by
        rw [hfork, deeds_append]
        simp [deeds]
      have hlaunch := lineage.provenance forker _ _ _ computation hflushes hforker rfl
      generalize hseen : deeds earlier forker = seen at hlaunch
      cases hlaunch with
      | launched seen hlaunched =>
          cases hlaunched
          obtain ⟨first, mid, rfl, rfl, -⟩ := exists_of_deeds hseen
          obtain ⟨forked, _, hforked, -, -, hdone, -, -⟩ := lineage.origins.careers _ forker _ later hfork
          obtain rfl := lineage.origins.only forked task _ hforked hbirth
          have hlater : ∃ rest, before = first ++ (forker, .performed (.fork (.bare computation))) :: mid ++
              (forker, .forked (.bare computation)) :: rest := by
            rcases order_of_splits (htrace.symm.trans hfork) with ⟨-, hact, -⟩ | ⟨rest, hbefore, -⟩ | ⟨rest, hbefore, -⟩
            · cases hact
            · rw [hbefore, deeds_append] at hdone
              simp [deeds] at hdone
            · exact ⟨rest, hbefore⟩
          obtain ⟨rest, hbefore⟩ := hlater
          refine ⟨forker, _, first, _, mid ++ (forker, .forked (.bare computation)) :: rest, ?_, .inr rfl, ?_, rfl⟩
          · exact .apart hfork hseen rfl hbirth
          · rw [hbefore]
            simp

namespace Setting

variable (setting : Setting machine underlying) (unintercepted : Unintercepted machine) (fresh : Fresh underlying first)
  (runs : Runs machine first trace system)
include setting unintercepted fresh runs

/-- What launches a flush is the service of a call that has opened a batch, and does it right then. -/
theorem service_of_launch (hflushes : Flushes underlying computation) {effect : Effect}
    (hlaunch : effect.LaunchOf computation) {before after : List Act}
    (hdeeds : deeds trace task = before ++ .performed effect :: after)
    (hactor : (Roll.after before).actor (.performed effect) = number) :
    ∃ group window args enrolment begun, computation = flush group (underlying group.definition) window ∧
      effect = launch group (underlying group.definition) window ∧ (enrolment : Enrolment).opened = true ∧
      strides (life before number) = [.resumed begun, .acted (.enroll group args) enrolment,
        .acted (.emit (.batchOpened (underlying group.definition).name group.key)) ()] := by
  obtain ⟨later, hstrides⟩ := exists_strides_of_split hdeeds hactor rfl
  have hmem : .performed effect ∈ strides (life (deeds trace task) number) := by simp [hstrides]
  have hunfair (hplain : ∀ act ∈ strides (life (deeds trace task) number), act.Plain underlying withheld) : False :=
    hflushes.not_fair hlaunch (hplain _ hmem)
  obtain ⟨other, tag, hrunnable, hpushed⟩ :=
    setting.exists_runnable (.inr unintercepted) fresh runs rfl (mem_strides.1 hmem).1
  rcases hrunnable with hfair | ⟨group, window, rfl⟩ | ⟨batcher, window, operation, hfair, rfl⟩
  · obtain ⟨name, body⟩ := other
    rcases hfair with hplain | ⟨group, window, hpassed, -⟩
    · obtain ⟨last, follows⟩ := follows_of_pushed runs hpushed
      exact (hunfair (follows.plain hplain)).elim
    · exact hpassed.elim
  · obtain ⟨calls, rfl⟩ := (flushing_of_pushed runs hpushed).performs hmem
    rcases hlaunch with hsame | hsame <;> cases hsame
  · rcases joining_of_pushed runs hpushed with hplain |
      ⟨kind, definition, function, key, args, begun, enrolment, rest, rfl, -, hcourse, joining⟩
    · exact (hunfair (hplain underlying withheld)).elim
    · obtain rfl : function = underlying definition := hfair
      rw [hstrides] at hcourse
      -- the launch comes after the call was enrolled
      rcases hbefore : strides (life before number) with _ | ⟨head, _ | ⟨second, earlier⟩⟩
      · rw [hbefore] at hcourse
        cases (List.cons.inj hcourse).1
      · rw [hbefore] at hcourse
        cases (List.cons.inj (List.cons.inj hcourse).2).1
      · rw [hbefore] at hcourse
        obtain ⟨rfl, hsecond⟩ := List.cons.inj hcourse
        obtain ⟨rfl, hrest⟩ := List.cons.inj hsecond
        obtain ⟨hopened, rfl, rfl⟩ := joining.before_launch hrest.symm
        exact ⟨_, window, args, enrolment, begun, launch_of_launchOf hlaunch rfl, rfl, hopened, rfl⟩

/-- A computation launches one flush, once. -/
theorem launch_once {other : Computation} (hflushes : Flushes underlying computation) (hagain : Flushes underlying other)
    {effect another : Effect} (hlaunch : effect.LaunchOf computation) (hsecond : another.LaunchOf other)
    {before after others later : List Act} (hdeeds : deeds trace task = before ++ .performed effect :: after)
    (hmore : deeds trace task = others ++ .performed another :: later)
    (hactor : (Roll.after before).actor (.performed effect) = number)
    (hsame : (Roll.after others).actor (.performed another) = number) :
    before = others ∧ effect = another ∧ after = later := by
  have hapart {effect another : Effect} {other : Computation} {before mid after others : List Act}
      (hagain : Flushes underlying other) (hsecond : another.LaunchOf other)
      (hmore : deeds trace task = others ++ .performed another :: after)
      (hsame : (Roll.after others).actor (.performed another) = number)
      (hactor : (Roll.after before).actor (.performed effect) = number)
      (hothers : others = before ++ .performed effect :: mid) : False := by
    obtain ⟨_, _, _, _, _, -, -, -, hstrides⟩ := setting.service_of_launch unintercepted fresh runs hagain hsecond hmore hsame
    obtain ⟨rest, hrest⟩ := exists_strides_of_split hothers hactor rfl
    have hmem : .performed effect ∈ strides (life others number) := by simp [hrest]
    rw [hstrides] at hmem
    simp at hmem
  rcases order_of_splits (hdeeds.symm.trans hmore) with ⟨rfl, hact, rfl⟩ | ⟨mid, hothers, -⟩ | ⟨mid, hbefore, -⟩
  · exact ⟨rfl, Act.performed.inj hact, rfl⟩
  · exact (hapart hagain hsecond hmore hsame hactor hothers).elim
  · exact (hapart hflushes hlaunch hdeeds hactor hsame hbefore).elim

variable (lineage : Lineage machine underlying first descent trace system.parked)

include lineage in
/-- A computation launches one flush. -/
theorem launched_once {other : Computation} (hflushes : Flushes underlying computation) (hagain : Flushes underlying other)
    {flusher running : TaskId} {second : Nat} (hfirst : LaunchedBy descent trace opener number computation flusher place)
    (hsecond : LaunchedBy descent trace opener number other running second) : flusher = running ∧ place = second := by
  have hapart {before after : Trace} {seen : List Act} {computation : Computation}
      (htrace : trace = before ++ (opener, .forked (.bare computation)) :: after)
      (hdeeds : deeds before opener = seen ++ [.performed (.fork (.bare computation))]) :
      deeds trace opener = seen ++ .performed (.fork (.bare computation)) :: .forked (.bare computation) :: deeds after opener := by
    rw [htrace, deeds_append, hdeeds]
    simp [deeds]
  cases hfirst with
  | here hdeeds hactor =>
      cases hsecond with
      | here hmore hsame =>
          obtain ⟨rfl, -, -⟩ := setting.launch_once unintercepted fresh runs hflushes hagain (.inl rfl) (.inl rfl) hdeeds hmore
            hactor hsame
          exact ⟨rfl, rfl⟩
      | apart htrace hmore hsame hbirth =>
          obtain ⟨-, heffect, -⟩ := setting.launch_once unintercepted fresh runs hflushes hagain (.inl rfl) (.inr rfl) hdeeds
            (hapart htrace hmore) hactor hsame
          cases heffect
  | @apart before after seen forked htrace hdeeds hactor hbirth =>
      cases hsecond with
      | here hmore hsame =>
          obtain ⟨-, heffect, -⟩ := setting.launch_once unintercepted fresh runs hflushes hagain (.inr rfl) (.inl rfl)
            (hapart htrace hdeeds) hmore hactor hsame
          cases heffect
      | @apart others later more _ hagainst hmore hsame hborn =>
          obtain ⟨rfl, -, -⟩ := setting.launch_once unintercepted fresh runs hflushes hagain (.inr rfl) (.inr rfl)
            (hapart htrace hdeeds) (hapart hagainst hmore) hactor hsame
          have hlength : (deeds before opener).length = (deeds others opener).length := by simp [hdeeds, hmore]
          obtain rfl : before = others := by
            rcases order_of_splits (htrace.symm.trans hagainst) with ⟨hbefore, -⟩ | ⟨mid, rfl, -⟩ | ⟨mid, rfl, -⟩
            · exact hbefore
            · rw [deeds_append] at hlength
              simp [deeds] at hlength
            · rw [deeds_append] at hlength
              simp [deeds] at hlength
          exact ⟨lineage.origins.only _ _ _ hbirth hborn, rfl⟩

omit unintercepted in
/-- Before a batch is collected, its flush waits for its turn. -/
theorem before_collect {before after : Trace} {calls : List Enrolled}
    (htrace : trace = before ++ (task, .acted (.collect group) calls) :: after)
    (hactor : (Roll.after (deeds before task)).actor (.acted (.collect group) calls) = place) :
    ∀ act ∈ strides (life (deeds before task) place), act.isPrelude = true := by
  have hdeeds : deeds trace task = deeds before task ++ .acted (.collect group) calls :: deeds after task := by
    rw [htrace, deeds_append]
    simp [deeds]
  obtain ⟨later, hstrides⟩ := exists_strides_of_split hdeeds hactor rfl
  have hcollected : .acted (.collect group) calls ∈ life (deeds trace task) place :=
    (mem_strides.1 (by simp [hstrides])).1
  obtain ⟨window, tag, hpushed⟩ := setting.flush_of_collect fresh runs hcollected
  exact (flushing_of_pushed runs hpushed).before_collect hstrides

omit unintercepted in
/-- Before a batch is abandoned, the call that opened it has forked the flush in vain. -/
theorem before_abandon {before after : Trace} (htrace : trace = before ++ (task, .acted (.abandon group) ()) :: after)
    (hactor : (Roll.after (deeds before task)).actor (.acted (.abandon group) ()) = number) :
    ∃ window args enrolment begun error, window ≠ 0 ∧ (enrolment : Enrolment).opened = true ∧
      strides (life (deeds before task) number) = [.resumed begun, .acted (.enroll group args) enrolment,
        .acted (.emit (.batchOpened (underlying group.definition).name group.key)) (),
        .performed (launch group (underlying group.definition) window), .resumed (.error error)] := by
  have hdeeds : deeds trace task = deeds before task ++ .acted (.abandon group) () :: deeds after task := by
    rw [htrace, deeds_append]
    simp [deeds]
  obtain ⟨later, hstrides⟩ := exists_strides_of_split hdeeds hactor rfl
  have hmem : .acted (.abandon group) () ∈ strides (life (deeds trace task) number) := by simp [hstrides]
  rcases setting.takes_part fresh runs rfl (mem_strides.1 hmem).1 with ⟨other, window, tag, hpushed⟩ |
    ⟨batcher, window, operation, tag, hfair, hpushed⟩
  · rcases (flushing_of_pushed runs hpushed).collects_or_answers hmem rfl with hact | ⟨slot, outcome, hact⟩ <;> cases hact
  · rcases joining_of_pushed runs hpushed with hplain |
      ⟨kind, definition, function, key, args, begun, enrolment, rest, rfl, -, hcourse, joining⟩
    · cases hplain underlying withheld _ hmem
    · obtain rfl : function = underlying definition := hfair
      rw [hstrides] at hcourse
      rcases hbefore : strides (life (deeds before task) number) with _ | ⟨head, _ | ⟨second, earlier⟩⟩
      · rw [hbefore] at hcourse
        cases (List.cons.inj hcourse).1
      · rw [hbefore] at hcourse
        cases (List.cons.inj (List.cons.inj hcourse).2).1
      · rw [hbefore] at hcourse
        obtain ⟨rfl, hsecond⟩ := List.cons.inj hcourse
        obtain ⟨rfl, hrest⟩ := List.cons.inj hsecond
        obtain ⟨hopened, hwindow, rfl, error, rfl⟩ := joining.before_abandon hrest.symm
        exact ⟨window, args, enrolment, begun, error, hwindow, hopened, rfl⟩

/-- The batch of a call is not abandoned once its flush was launched. -/
theorem not_launched_of_abandon {before after : Trace} (htrace : trace = before ++ (opener, .acted (.abandon group) ()) :: after)
    (hactor : (Roll.after (deeds before opener)).actor (.acted (.abandon group) ()) = number)
    (hflushes : Flushes underlying computation) {flusher : TaskId} :
    ¬ LaunchedBy descent trace opener number computation flusher place := by
  intro hlaunched
  obtain ⟨window, args, enrolment, begun, error, hwindow, -, hstrides⟩ := setting.before_abandon fresh runs htrace hactor
  have hlaunch : launch group (underlying group.definition) window =
      .fork (.bare (flush group (underlying group.definition) window)) := if_neg hwindow
  have hdeeds : deeds trace opener = deeds before opener ++ .acted (.abandon group) () :: deeds after opener := by
    rw [htrace, deeds_append]
    simp [deeds]
  -- what was launched is what the service was told the failure of
  have hcourse : strides (life (deeds before opener) number) = [.resumed begun, .acted (.enroll group args) enrolment,
      .acted (.emit (.batchOpened (underlying group.definition).name group.key)) ()] ++
        .performed (.fork (.bare (flush group (underlying group.definition) window))) :: [.resumed (.error error)] := by
    rw [hstrides, hlaunch]
    rfl
  obtain ⟨seen, more, hseen, hperformed, hearlier⟩ := exists_of_strides hcourse
  have hmore : deeds trace opener = seen ++ .performed (.fork (.bare (flush group (underlying group.definition) window))) ::
      (more ++ .acted (.abandon group) () :: deeds after opener) := by
    rw [hdeeds, hseen, List.append_assoc]
    rfl
  cases hlaunched with
  | here hfirst hsame =>
      obtain ⟨-, heffect, -⟩ := setting.launch_once unintercepted fresh runs hflushes ⟨group, window, rfl⟩ (.inl rfl) (.inr rfl)
        hfirst hmore hsame hperformed
      cases heffect
  | @apart earlier later others _ hforked hfirst hsame hbirth =>
      have hsplit : deeds trace opener = others ++ .performed (.fork (.bare computation)) :: .forked (.bare computation) ::
          deeds later opener := by
        rw [hforked, deeds_append, hfirst]
        simp [deeds]
      obtain ⟨rfl, heffect, -⟩ := setting.launch_once unintercepted fresh runs hflushes ⟨group, window, rfl⟩ (.inr rfl)
        (.inr rfl) hsplit hmore hsame hperformed
      cases heffect
      obtain ⟨rest, hrest⟩ := exists_strides_of_split hdeeds hactor rfl
      have hrefused : strides (life (deeds trace opener) number) = strides (life others number) ++
          .performed (.fork (.bare (flush group (underlying group.definition) window))) :: .resumed (.error error) ::
            (.acted (.abandon group) () :: rest) := by
        rw [hrest, hcourse, hearlier]
        exact List.append_assoc ..
      exact runs.not_refused_of_forked unintercepted.fork hsplit hsame hrefused

include lineage in
/-- Only one batch is closed for a call. -/
theorem closes_once {before after others later : Trace} {act another : Act} {running : TaskId} {other : BatchGroup}
    (hfirst : trace = before ++ (task, act) :: after) (hsecond : trace = others ++ (running, another) :: later)
    (hcloses : ClosesFor underlying descent trace before task opener number group act)
    (hagain : ClosesFor underlying descent trace others running opener number other another) : before = others := by
  have hmem {before mid : Trace} {task : TaskId} {act : Act} {place : Nat} (hstride : act.isStride = true)
      (hactor : (Roll.after (deeds before task)).actor act = place) :
      act ∈ strides (life (deeds (before ++ (task, act) :: mid) task) place) := by
    have hdeeds : deeds (before ++ (task, act) :: mid) task = deeds before task ++ act :: deeds mid task := by
      rw [deeds_append]
      simp [deeds]
    obtain ⟨rest, hrest⟩ := exists_strides_of_split hdeeds hactor hstride
    simp [hrest]
  cases hcloses with
  | @collect window place calls hactor hlaunched =>
      cases hagain with
      | @collect time second more hsame hrelaunched =>
          obtain ⟨rfl, rfl⟩ := setting.launched_once unintercepted fresh runs lineage ⟨group, window, rfl⟩ ⟨other, time, rfl⟩
            hlaunched hrelaunched
          rcases order_of_splits (hfirst.symm.trans hsecond) with ⟨hbefore, -⟩ | ⟨mid, rfl, -⟩ | ⟨mid, rfl, -⟩
          · exact hbefore
          · cases setting.before_collect fresh runs hsecond hsame _ (hmem rfl hactor)
          · cases setting.before_collect fresh runs hfirst hactor _ (hmem rfl hsame)
      | abandon htask hsame =>
          subst htask
          exact absurd hlaunched
            (setting.not_launched_of_abandon unintercepted fresh runs hsecond hsame ⟨group, window, rfl⟩)
  | abandon htask hactor =>
      subst htask
      cases hagain with
      | @collect time second more hsame hrelaunched =>
          exact absurd hrelaunched
            (setting.not_launched_of_abandon unintercepted fresh runs hfirst hactor ⟨other, time, rfl⟩)
      | abandon htask hsame =>
          subst htask
          have hnever {before after : Trace} {group other : BatchGroup}
              (htrace : trace = before ++ (running, .acted (.abandon group) ()) :: after)
              (hactor : (Roll.after (deeds before running)).actor (.acted (.abandon group) ()) = number) :
              .acted (.abandon other) () ∉ strides (life (deeds before running) number) := by
            obtain ⟨_, _, _, _, _, -, -, hstrides⟩ := setting.before_abandon fresh runs htrace hactor
            rw [hstrides]
            intro hmem
            simp only [List.mem_cons, reduceCtorEq, List.not_mem_nil, or_false, false_or] at hmem
            rcases hmem with hact | hact <;> cases hact
          rcases order_of_splits (hfirst.symm.trans hsecond) with ⟨hbefore, -⟩ | ⟨mid, rfl, -⟩ | ⟨mid, rfl, -⟩
          · exact hbefore
          · exact absurd (hmem rfl hactor) (hnever hsecond hsame)
          · exact absurd (hmem rfl hsame) (hnever hfirst hactor)

include lineage in
/-- Every batch that is closed is closed for a call, which has opened a batch of the group before. -/
theorem exists_opener {before after : Trace} {act : Act} (htrace : trace = before ++ (task, act) :: after)
    (hremoves : act.removes group = true) :
    ∃ opener number args enrolment earlier mid, ClosesFor underlying descent trace before task opener number group act ∧
      before = earlier ++ (opener, .acted (.enroll group args) enrolment) :: mid ∧
      OpensAs earlier opener number group args enrolment := by
  have hdeeds : deeds trace task = deeds before task ++ act :: deeds after task := by
    rw [htrace, deeds_append]
    simp [deeds]
  unfold Act.removes at hremoves
  split at hremoves
  · rename_i other calls
    obtain rfl : other = group := of_decide_eq_true hremoves
    obtain ⟨rest, hlife⟩ := exists_life_of_split hdeeds rfl
    have hcollected : .acted (.collect other) calls ∈ life (deeds trace task)
        ((Roll.after (deeds before task)).actor (.acted (.collect other) calls)) := by simp [hlife]
    obtain ⟨window, tag, hpushed⟩ := setting.flush_of_collect fresh runs hcollected
    have hsame {group : BatchGroup} {time : Nat} (hflush : flush other (underlying other.definition) window =
        flush group (underlying group.definition) time) : other = group := by
      have hmem := mem_strides.2 ⟨hcollected, show (Act.acted (.collect other) calls).isStride = true from rfl⟩
      have hbatch : (Action.collect other).isBatch = true := rfl
      rw [hflush] at hpushed
      rcases (flushing_of_pushed runs hpushed).collects_or_answers hmem hbatch with hact | ⟨slot, outcome, hact⟩
      · exact Action.collect.inj hact
      · cases hact
    -- the flush was put on the stack before it collected
    obtain ⟨later, last, hfresh, -⟩ := runs.life_eq hpushed
    have hearly : .pushed (flush other (underlying other.definition) window) tag ∈
        life (deeds before task) ((Roll.after (deeds before task)).actor (.acted (.collect other) calls)) := by
      rw [hlife] at hfresh
      cases hown : life (deeds before task) ((Roll.after (deeds before task)).actor (.acted (.collect other) calls)) with
      | nil =>
          rw [hown] at hfresh
          cases (List.cons.inj hfresh).1
      | cons head own =>
          rw [hown] at hfresh
          rw [(List.cons.inj hfresh).1]
          exact List.mem_cons_self
    obtain ⟨seen, mid, rfl, hplace⟩ := exists_of_life hearly
    rw [List.append_assoc] at htrace
    obtain ⟨opener, number, earlier, effect, more, hlaunched, hlaunch, rfl, hactor⟩ :=
      lineage.exists_launch ⟨other, window, rfl⟩ htrace
    have hopener : deeds trace opener = deeds earlier opener ++ .performed effect ::
        deeds (more ++ (task, .pushed (flush other (underlying other.definition) window) tag) :: (mid ++
          (task, .acted (.collect other) calls) :: after)) opener := by
      rw [htrace, List.append_assoc, deeds_append]
      simp [deeds]
    obtain ⟨group, time, args, enrolment, begun, hflush, -, hopened, hstrides⟩ :=
      setting.service_of_launch unintercepted fresh runs ⟨other, window, rfl⟩ hlaunch hopener hactor
    obtain rfl : other = group := hsame hflush
    have henrolled : .acted (.enroll other args) enrolment ∈ life (deeds earlier opener) number :=
      (mem_strides.1 (by rw [hstrides]; simp)).1
    obtain ⟨opening, between, rfl, hopening⟩ := exists_of_life henrolled
    have hplace : (Roll.after (deeds (opening ++ (opener, .acted (.enroll other args) enrolment) :: between ++
        (opener, .performed effect) :: more) task)).next = _ := hplace
    rw [hplace] at hlaunched
    exact ⟨opener, number, args, enrolment, opening, _, .collect calls rfl hlaunched, by simp; rfl, hopened, hopening⟩
  · rename_i other reply
    obtain rfl : other = group := of_decide_eq_true hremoves
    obtain ⟨window, args, enrolment, begun, error, -, hopened, hstrides⟩ := setting.before_abandon fresh runs htrace rfl
    have henrolled : .acted (.enroll other args) enrolment ∈ life (deeds before task)
        ((Roll.after (deeds before task)).actor (.acted (.abandon other) ())) := (mem_strides.1 (by rw [hstrides]; simp)).1
    obtain ⟨opening, between, hbefore, hopening⟩ := exists_of_life henrolled
    exact ⟨task, _, args, enrolment, opening, between, .abandon rfl rfl, hbefore, hopened, hopening⟩
  · cases hremoves

include lineage in
/-- The batch that is closed for a call is the one that the call has opened: it was open until then. -/
theorem open_until_closed {before after earlier mid : Trace} {act : Act} {args : List Value} {enrolment : Enrolment}
    (htrace : trace = before ++ (task, act) :: after)
    (hcloses : ClosesFor underlying descent trace before task opener number group act)
    (hbefore : before = earlier ++ (opener, .acted (.enroll group args) enrolment) :: mid)
    (hopens : OpensAs earlier opener number group args enrolment) : ∀ entry ∈ mid, entry.2.removes group = false := by
  have recorded := (setting.books fresh runs).recorded
  -- a batch is opened when it is not open
  have hclosed {others later : Trace} {task : TaskId} {args : List Value} {enrolment : Enrolment}
      (hsplit : trace = others ++ (task, .acted (.enroll group args) enrolment) :: later)
      (hopened : enrolment.opened = true) {seen rest : Trace} {running : TaskId} {more : List Value} {another : Enrolment}
      (hothers : others = seen ++ (running, .acted (.enroll group more) another) :: rest)
      (hkept : ∀ entry ∈ rest, entry.2.removes group = false) : False := by
    obtain ⟨-, hiff⟩ := recorded others task _ later hsplit
    have hbooked : (⟨more, another.slot⟩ : Enrolled) ∈ booked group others :=
      mem_booked_iff.2 ⟨seen, running, another, rest, hothers, rfl, hkept⟩
    rw [hiff.1 hopened] at hbooked
    cases hbooked
  induction hlength : before.length using Nat.strongRecOn generalizing before after earlier mid act task opener number args
    enrolment with
  | ind length ih =>
      intro entry hentry
      by_contra hremoves
      rw [Bool.not_eq_false] at hremoves
      obtain ⟨between, remover, removal, rest, rfl, hremoval, hquiet⟩ := exists_removal hentry hremoves
      -- the first one to close the batch meanwhile is not its own
      have hmeanwhile : trace = (earlier ++ (opener, .acted (.enroll group args) enrolment) :: between) ++
          (remover, removal) :: (rest ++ (task, act) :: after) := by
        rw [htrace, hbefore]
        simp
      obtain ⟨other, place, more, another, opening, since, hother, hopening, hagain⟩ :=
        setting.exists_opener unintercepted fresh runs lineage hmeanwhile hremoval
      have hsince := ih _ (by simp [← hlength, hbefore]) hmeanwhile hother hopening hagain rfl
      rcases order_of_splits hopening with ⟨rfl, hsame, -⟩ | ⟨late, hopenings, hsplit⟩ | ⟨late, rfl, hsplit⟩
      · cases hsame
        obtain rfl : number = place := hopens.actor.symm.trans hagain.actor
        have hsame := setting.closes_once unintercepted fresh runs lineage htrace hmeanwhile hcloses hother
        rw [hbefore] at hsame
        simp at hsame
      · have hreopened : trace = opening ++ (other, .acted (.enroll group more) another) ::
            (since ++ (remover, removal) :: (rest ++ (task, act) :: after)) := by
          rw [hmeanwhile, hopening]
          simp
        exact hclosed hreopened hagain.opened hopenings fun entry hmem => hquiet entry (by simp [hsplit, hmem])
      · have hreopened : trace = (opening ++ (other, .acted (.enroll group more) another) :: late) ++
            (opener, .acted (.enroll group args) enrolment) ::
              (between ++ (remover, removal) :: (rest ++ (task, act) :: after)) := by
          rw [hmeanwhile]
          simp
        exact hclosed hreopened hopens.opened rfl fun entry hmem => hsince entry (by simp [hsplit, hmem])

end Setting
end Batch
end EffectMachine
