import EffectMachine.Proofs.Concurrent.Orphans
import EffectMachine.Proofs.Interleaving.Cooperation
import EffectMachine.Proofs.Interleaving.Forks

/-!
# Results in the order of effects

The operations `all` and `allSettled` fork all their effects, in order, before they wait for any task, and they put
together what the tasks ended with by position, whatever the order in which the tasks settle.
-/

namespace EffectMachine

/-- Whether by an act a computation does something by itself, waits or ends. -/
def Act.isOwn : Act → Bool
  | .acted .. | .waited _ | .completed _ => true
  | _ => false

/-- Where a computation stands that forks effects one after another and goes on with their tasks, by its strides. -/
inductive Forking (rest : List TaskId → Body) (effects : List Effect) : List Act → Progress → Prop
  /-- It has not begun. -/
  | unbegun (body : Body) : Forking rest effects [] (.fresh body)
  /-- It is about to fork an effect. -/
  | forking (begun : Outcome) {pairs : List (Effect × TaskId)} {left : List Effect} (effect : Effect)
      (resume : Outcome → Body) (heffects : effects = pairs.map Prod.fst ++ effect :: left) :
      Forking rest effects (.resumed begun :: forkings pairs) (.running (.perform (.fork effect) resume))
  /-- It has forked an effect and awaits the task. -/
  | asking (begun : Outcome) {pairs : List (Effect × TaskId)} {left : List Effect} (effect : Effect)
      (resume : Outcome → Body) (heffects : effects = pairs.map Prod.fst ++ effect :: left) :
      Forking rest effects (.resumed begun :: (forkings pairs ++ [.performed (.fork effect)])) (.suspended resume)
  /-- It has forked all effects and goes on with the tasks. -/
  | forked (begun : Outcome) {pairs : List (Effect × TaskId)} {later : List Act} {last : Progress}
      (heffects : effects = pairs.map Prod.fst)
      (follows : Follows (.running (rest (pairs.map Prod.snd))) later last) :
      Forking rest effects (.resumed begun :: (forkings pairs ++ later)) last

namespace Concurrent

/-- Where a computation stands that has begun to fork effects. -/
theorem forking_of_follows {rest : List TaskId → Body} {begun : Outcome} (done : List (Effect × TaskId))
    {effects : List Effect} {acts : List Act} {last : Progress}
    (follows : Follows (.running (forkEach (done.map Prod.snd) rest effects)) acts last) (hkept : .givenUp ∉ acts)
    (haccepted : ∀ answer ∈ resumptions acts, ∃ forked, taskOf answer = .ok forked) :
    Forking rest (done.map Prod.fst ++ effects) (.resumed begun :: (forkings done ++ acts)) last := by
  induction effects generalizing done acts with
  | nil => exact .forked begun (List.append_nil _) follows
  | cons effect effects ih =>
      unfold forkEach Body.andThen at follows
      cases follows with
      | done =>
          rw [List.append_nil]
          exact .forking begun effect _ rfl
      | giveUp => exact absurd List.mem_cons_self hkept
      | perform further =>
          cases further with
          | done => exact .asking begun effect _ rfl
          | giveUp => exact absurd (by simp) hkept
          | @resume _ answer acts _ further =>
              obtain ⟨forked, htask⟩ := haccepted answer (by simp [resumptions, Act.resumption?])
              obtain ⟨value, rfl, hvalue⟩ : ∃ value, answer = .ok value ∧ value = .task forked := by
                cases answer with
                | error error => cases htask
                | ok value => cases value <;> first | cases htask; exact ⟨_, rfl, rfl⟩ | cases htask
              subst hvalue
              have hfurther : Follows (.running (forkEach ((done ++ [(effect, forked)]).map Prod.snd) rest effects)) acts last := by
                rw [List.map_append]
                exact further
              have hlater := ih _ hfurther (fun hmem => hkept (by simp [hmem]))
                fun answer hmem => haccepted answer (List.mem_cons_of_mem _ hmem)
              rw [forkings_append, List.map_append, List.append_assoc, List.append_assoc] at hlater
              exact hlater

/-- The effects that a frame forked, or tried to. -/
def forkedEffects (acts : List Act) : List Effect :=
  acts.filterMap fun
    | .performed (.fork effect) => some effect
    | _ => none

theorem forkedEffects_append (acts more : List Act) :
    forkedEffects (acts ++ more) = forkedEffects acts ++ forkedEffects more :=
  List.filterMap_append

/-- Forks are strides. -/
theorem forkedEffects_strides (acts : List Act) : forkedEffects (strides acts) = forkedEffects acts := by
  rw [forkedEffects, strides, List.filterMap_filter, forkedEffects]
  congr 1
  funext act
  cases act <;> rfl

theorem handles_strides (acts : List Act) : handles (strides acts) = handles acts := by
  rw [handles, answers, resumptions_strides]
  rfl

theorem forkedEffects_forkings (pairs : List (Effect × TaskId)) :
    forkedEffects (forkings pairs) = pairs.map Prod.fst := by
  induction pairs with
  | nil => rfl
  | cons pair rest ih => exact congrArg (pair.1 :: ·) ih

theorem resumptions_forkings (pairs : List (Effect × TaskId)) :
    resumptions (forkings pairs) = pairs.map fun pair => .ok (.task pair.2) := by
  induction pairs with
  | nil => rfl
  | cons pair rest ih => exact congrArg (.ok (.task pair.2) :: ·) ih

/-- The tasks that a computation knows that has been resumed after forking effects. -/
theorem handles_forkings (begun : Outcome) (pairs : List (Effect × TaskId)) {later : List Act}
    (hlater : resumptions later = []) : handles (.resumed begun :: (forkings pairs ++ later)) = pairs.map Prod.snd := by
  show (resumptions (forkings pairs ++ later)).filterMap _ = _
  rw [resumptions_append, resumptions_forkings, hlater, List.append_nil, List.filterMap_map]
  induction pairs with
  | nil => rfl
  | cons pair rest ih => exact congrArg (pair.2 :: ·) ih

/-- A body that performs no effect, and that waits for nothing but the tasks. -/
inductive Gathering (tasks : List TaskId) : Body → Prop
  | done (outcome : Outcome) : Gathering tasks (.done outcome)
  | act {action : Action} {resume : action.Reply → Body}
      (hwaits : ∀ {host : Host} {task : TaskId}, host.Awaits task action → ∃ other ∈ tasks, host.outcome? other = none)
      (hrest : ∀ reply, Gathering tasks (resume reply)) : Gathering tasks (.act action resume)

namespace Gathering

variable {tasks : List TaskId} {body : Body} {acts : List Act} {last : Progress}

/-- What is left of a body that performs no effect is of the same kind; it forks nothing and is told nothing. -/
theorem follows (gathering : Gathering tasks body) (follows : Follows (.running body) acts last) :
    resumptions acts = [] ∧ forkedEffects acts = [] ∧ (last = .finished ∨ ∃ left, last = .running left ∧ Gathering tasks left) := by
  induction gathering generalizing acts with
  | done outcome =>
      cases follows with
      | done => exact ⟨rfl, rfl, .inr ⟨_, rfl, .done outcome⟩⟩
      | complete rest | giveUp _ rest =>
          cases rest with
          | done => exact ⟨rfl, rfl, .inl rfl⟩
          | giveUp hgoing => exact absurd rfl hgoing
  | act hwaits hrest ih =>
      cases follows with
      | done => exact ⟨rfl, rfl, .inr ⟨_, rfl, .act hwaits hrest⟩⟩
      | giveUp _ rest =>
          cases rest with
          | done => exact ⟨rfl, rfl, .inl rfl⟩
          | giveUp hgoing => exact absurd rfl hgoing
      | act rest =>
          have hlater := ih _ rest
          exact hlater

theorem signalEach {canceled : List TaskId} {rest : List TaskId → Body}
    (hrest : ∀ asked : List TaskId, asked.Sublist canceled → Gathering tasks (rest asked)) :
    Gathering tasks (signalEach canceled rest) := by
  induction canceled generalizing rest with
  | nil => exact hrest [] .slnil
  | cons task canceled ih =>
      refine .act (fun hawaits => nomatch hawaits) fun settled => ?_
      cases settled with
      | true => exact ih fun asked hasked => hrest asked (hasked.cons task)
      | false =>
          exact .act (fun hawaits => nomatch hawaits) fun _ => .act (fun hawaits => nomatch hawaits) fun _ =>
            ih fun asked hasked => hrest (task :: asked) (hasked.cons_cons task)

theorem awaitAll (tasks : List TaskId) : Gathering tasks (awaitAll tasks) := by
  refine .act (fun hawaits => ?_) fun reply => ?_
  · cases hawaits with
    | firstFailure hends => exact hends.unsettled
  · cases reply with
    | ok values => exact .done _
    | error error =>
        refine signalEach fun asked hasked => .act (fun hawaits => ?_) fun _ => .done _
        cases hawaits with
        | join hends =>
            obtain ⟨other, hmem, hnone⟩ := hends.unsettled
            exact ⟨other, hasked.subset hmem, hnone⟩

theorem awaitAllSettled (tasks : List TaskId) : Gathering tasks (awaitAllSettled tasks) := by
  refine .act (fun hawaits => ?_) fun _ => .done _
  cases hawaits with
  | join hends => exact hends.unsettled

end Gathering

/-- Effects were forked in order, each as a task of its own, before anything else was done. -/
structure ForksInOrder (machine : Machine) (trace : Trace) (system : System) (effects : List Effect)
    (acts : List Act) : Prop where
  /-- Those that were forked are the first ones, in order. -/
  ordered : forkedEffects acts <+: effects
  /-- The tasks are those of the effects, in order. -/
  offspring : List.Forall₂ (Offspring machine trace system) (effects.take (handles acts).length) (handles acts)
  distinct : (handles acts).Nodup
  /-- Before the computation does anything by itself, waits or ends, all effects were forked. -/
  first : ∀ before act after, acts = before ++ act :: after → act.isOwn = true →
    forkedEffects before = effects ∧ (handles before).length = effects.length ∧ handles before = handles acts

/-- Tasks are known of effects that were accepted. -/
theorem accepted_of_not_refused {acts : List Act} (haccepted : ¬ Refused acts) :
    ∀ answer ∈ answers acts, ∃ forked, taskOf answer = .ok forked := by
  intro answer hmem
  cases htask : taskOf answer with
  | ok forked => exact ⟨forked, rfl⟩
  | error error => exact absurd ⟨answer, hmem, error, htask⟩ haccepted

theorem answers_isPrefix (acts more : List Act) : answers acts <+: answers (acts ++ more) := by
  unfold answers
  rw [resumptions_append]
  cases resumptions acts with
  | nil => exact List.nil_prefix
  | cons begun rest => exact List.prefix_append rest _

end Concurrent

open Concurrent

/-- Where a computation stands that forks effects, by all that its frame did. -/
theorem Plays.forking {rest : List TaskId → Body} {effects : List Effect} {acts : List Act} {last : Progress}
    (plays : Plays (.fresh (forkEach [] rest effects)) acts last) (hkept : .givenUp ∉ acts) (haccepted : ¬ Refused acts) :
    Forking rest effects (strides acts) last := by
  have htasks := accepted_of_not_refused haccepted
  have follows := plays.follows
  rw [answers, ← resumptions_strides] at htasks
  have hstrides : .givenUp ∉ strides acts := fun hmem => hkept (mem_strides.1 hmem).1
  generalize strides acts = path at follows htasks hstrides
  cases follows with
  | done => exact .unbegun _
  | begin further =>
      exact forking_of_follows [] further (fun hmem => hstrides (List.mem_cons_of_mem _ hmem)) htasks
  | giveUp => exact absurd List.mem_cons_self hstrides

/-- What a computation that forks effects has forked: the first effects, with the tasks of all of them but at most the
last. -/
theorem Forking.accounts {rest : List TaskId → Body} {effects : List Effect} {acts : List Act} {last : Progress}
    (forking : Forking rest effects acts last) (hgathering : ∀ tasks, Gathering tasks (rest tasks)) :
    ∃ pairs path later, acts = path ++ forkings pairs ++ later ∧ pairs.map Prod.fst <+: effects ∧
      handles acts = pairs.map Prod.snd ∧ forkedEffects acts <+: effects := by
  cases forking with
  | unbegun => exact ⟨[], [], [], rfl, List.nil_prefix, rfl, List.nil_prefix⟩
  | @forking begun pairs left effect resume heffects =>
      subst heffects
      have hhandles := handles_forkings begun pairs (show resumptions [] = [] from rfl)
      rw [List.append_nil] at hhandles
      refine ⟨pairs, [.resumed begun], [], by simp, List.prefix_append _ _, hhandles, ?_⟩
      show forkedEffects (forkings pairs) <+: _
      rw [forkedEffects_forkings]
      exact List.prefix_append _ _
  | @asking begun pairs left effect resume heffects =>
      subst heffects
      refine ⟨pairs, [.resumed begun], [.performed (.fork effect)], by simp, List.prefix_append _ _,
        handles_forkings begun pairs rfl, ?_⟩
      show forkedEffects (forkings pairs ++ _) <+: _
      rw [forkedEffects_append, forkedEffects_forkings]
      exact ⟨left, by simp [forkedEffects]⟩
  | @forked begun pairs later last heffects follows =>
      subst heffects
      obtain ⟨hresumptions, hforked, -⟩ := (hgathering _).follows follows
      refine ⟨pairs, [.resumed begun], later, by simp, List.prefix_refl _, handles_forkings begun pairs hresumptions, ?_⟩
      have hown : forkedEffects (forkings pairs ++ later) = pairs.map Prod.fst := by
        rw [forkedEffects_append, forkedEffects_forkings, hforked, List.append_nil]
      exact hown.symm ▸ List.prefix_refl _

/-- A computation that does something by itself, waits or ends is running, and does not perform an effect. -/
theorem Plays.not_performing {first last : Progress} {act : Act} {acts : List Act} (plays : Plays first (act :: acts) last)
    (hown : act.isOwn = true) :
    (∃ action resume, first = .running (.act action resume)) ∨ ∃ outcome, first = .running (.done outcome) := by
  cases plays with
  | aside haside => cases act <;> first | (cases hown; done) | cases haside
  | act | wait => exact .inl ⟨_, _, rfl⟩
  | complete => exact .inr ⟨_, rfl⟩
  | _ => cases hown

/-- A computation that has finished and was not given up has completed. -/
theorem Follows.completed {first last : Progress} {acts : List Act} (follows : Follows first acts last)
    (hgoing : first ≠ .finished) (hroot : first ≠ .root) (hlast : last = .finished) (hkept : .givenUp ∉ acts) :
    ∃ outcome, .completed outcome ∈ acts := by
  induction follows with
  | done => exact absurd hlast hgoing
  | begin _ ih | resume _ ih | act _ ih | perform _ ih =>
      obtain ⟨outcome, hmem⟩ := ih (by simp) (by simp) hlast fun hmem => hkept (List.mem_cons_of_mem _ hmem)
      exact ⟨outcome, List.mem_cons_of_mem _ hmem⟩
  | complete => exact ⟨_, List.mem_cons_self⟩
  | giveUp => exact absurd List.mem_cons_self hkept
  | vacate => exact absurd rfl hroot

section Order

variable {machine : Machine} {first : Host} {trace : Trace} {system : System} {task : TaskId} {number : Nat}
variable {computation : Computation} {tag : Option HandlerTag} {rest : List TaskId → Body} {effects : List Effect}

/-- A computation that forks effects plays its part, and is on top of its stack or has stopped. -/
theorem Runs.plays_forking (runs : Runs machine first trace system) (hcalm : .noticed ∉ deeds trace task)
    (hbody : computation.body = forkEach [] rest effects)
    (hpushed : .pushed computation tag ∈ life (deeds trace task) number)
    (haccepted : ¬ Refused (life (deeds trace task) number)) :
    ∃ later progress, life (deeds trace task) number = .pushed computation tag :: later ∧
      Plays (.fresh (forkEach [] rest effects)) later progress ∧ .givenUp ∉ later ∧ ¬ Refused later ∧
      ((Roll.after (deeds trace task)).live.head? = some number ∧
        (∃ stack, system.driven? task = some stack ∧ stack.top.progress = progress) ∨
      (Roll.after (deeds trace task)).live.head? ≠ some number ∧ progress.Waits) := by
  have hkept := runs.not_mem_givenUp hcalm number
  obtain ⟨later, progress, hlife, plays, hplace⟩ := runs.on_top_or_waits hpushed
  rw [hbody] at plays
  rw [hlife] at hkept haccepted
  exact ⟨later, progress, hlife, plays, fun hmem => hkept (List.mem_cons_of_mem _ hmem), haccepted, hplace⟩

/-- A computation that forks effects and then performs no other has forked them in order, each as a task of its own,
before it does anything else. -/
theorem Runs.forksInOrder (runs : Runs machine first trace system)
    (hfork : machine.registry.hasHandlers Kind.fork = false) (hcalm : .noticed ∉ deeds trace task)
    (hgathering : ∀ tasks, Gathering tasks (rest tasks)) (hbody : computation.body = forkEach [] rest effects)
    (hpushed : .pushed computation tag ∈ life (deeds trace task) number)
    (haccepted : ¬ Refused (life (deeds trace task) number)) :
    ForksInOrder machine trace system effects (life (deeds trace task) number) := by
  obtain ⟨later, progress, hlife, plays, hkept, htold, -⟩ := runs.plays_forking hcalm hbody hpushed haccepted
  have hstrides : strides (life (deeds trace task) number) = strides later := by rw [hlife]; rfl
  obtain ⟨pairs, path, tail, hpath, hprefix, hhandles, hforked⟩ := (plays.forking hkept htold).accounts hgathering
  rw [← hstrides] at hpath
  obtain ⟨hoffspring, hdistinct⟩ := runs.offspring_of_forkings hfork hcalm hpath
  rw [handles_strides] at hhandles
  rw [forkedEffects_strides] at hforked
  have hsame : handles (life (deeds trace task) number) = pairs.map Prod.snd := by rw [hlife]; exact hhandles
  refine ⟨by rw [hlife]; exact hforked, ?_, hsame ▸ hdistinct, ?_⟩
  · rw [hsame, List.length_map, ← List.length_map Prod.fst, ← List.prefix_iff_eq_take.1 hprefix,
      List.forall₂_map_left_iff, List.forall₂_map_right_iff, List.forall₂_same]
    exact hoffspring
  · intro before act after hsplit hact
    rw [hlife] at hsplit
    cases before with
    | nil =>
        obtain ⟨rfl, -⟩ := List.cons.inj hsplit
        cases hact
    | cons head before =>
        obtain ⟨rfl, rfl⟩ := List.cons.inj hsplit
        obtain ⟨middle, hbefore, hafter⟩ := plays.split
        have hquiet : ¬ Refused before := by
          rintro ⟨answer, hanswer, error, hrefused⟩
          exact htold ⟨answer, (answers_isPrefix before _).subset hanswer, error, hrefused⟩
        have hforking := hbefore.forking (fun hmem => hkept (List.mem_append_left _ hmem)) hquiet
        have hall : forkedEffects before = effects ∧ (handles before).length = effects.length := by
          rw [← forkedEffects_strides, ← handles_strides]
          generalize strides before = acts at hforking ⊢
          cases hforking with
          | unbegun | forking | asking => rcases hafter.not_performing hact with ⟨_, _, h⟩ | ⟨_, h⟩ <;> cases h
          | @forked begun pairs later middle heffects follows =>
              obtain ⟨hresumptions, hforked, -⟩ := (hgathering _).follows follows
              refine ⟨?_, by rw [handles_forkings begun pairs hresumptions, heffects, List.length_map, List.length_map]⟩
              show forkedEffects (forkings pairs ++ later) = effects
              rw [forkedEffects_append, forkedEffects_forkings, hforked, List.append_nil, heffects]
        refine ⟨hall.1, hall.2, ?_⟩
        have htasks : handles before <+: handles (before ++ act :: after) := (answers_isPrefix _ _).filterMap _
        rw [hlife]
        refine htasks.eq_of_length_le ?_
        have hlength := hprefix.length_le
        rw [List.length_map] at hlength
        rw [hall.2, show handles (before ++ act :: after) = pairs.map Prod.snd from hhandles, List.length_map]
        exact hlength

/-- When nothing is left to happen, a computation that forks effects and waits for the tasks has ended, if the tasks
have. -/
theorem Cooperates.completes (hnew : ∀ process ∈ first.processes, process.activity.stack? = none)
    (cooperates : Cooperates machine { host := first } trace system) (hstuck : system.step machine = none)
    (hfork : machine.registry.hasHandlers Kind.fork = false) (hcalm : .noticed ∉ deeds trace task)
    (hgathering : ∀ tasks, Gathering tasks (rest tasks)) (hbody : computation.body = forkEach [] rest effects)
    (hpushed : .pushed computation tag ∈ life (deeds trace task) number)
    (haccepted : ¬ Refused (life (deeds trace task) number))
    (hsettled : ∀ forked ∈ handles (life (deeds trace task) number), system.host.isSettled forked = true) :
    ∃ outcome, .completed outcome ∈ life (deeds trace task) number := by
  have runs : Runs machine first trace system := cooperates.proceeds.runs (.start hnew)
  obtain ⟨later, progress, hlife, plays, hkept, htold, hplace⟩ := runs.plays_forking hcalm hbody hpushed haccepted
  have hpos := pos_of_pushed hpushed
  have hstrides : strides (life (deeds trace task) number) = strides later := by rw [hlife]; rfl
  have forking := plays.forking hkept htold
  -- on top of its stack, it waits as its action does
  have hawaits (htop : (Roll.after (deeds trace task)).live.head? = some number ∧
      ∃ stack, system.driven? task = some stack ∧ stack.top.progress = progress) :
      ∃ action resume, progress = .running (.act action resume) ∧ system.host.Awaits task action := by
    obtain ⟨-, stack, hdriven, rfl⟩ := htop
    exact ((cooperates.attended (.of_new hnew)).awaits hstuck hdriven).2
  rw [← hstrides] at forking
  have hhandles := handles_strides (life (deeds trace task) number)
  generalize hacts : strides (life (deeds trace task) number) = acts at forking hstrides hhandles
  cases forking with
  | unbegun | forking =>
      rcases hplace with htop | ⟨-, hwaits⟩
      · obtain ⟨_, _, hrunning, -⟩ := hawaits htop
        cases hrunning
      · cases hwaits
  | @asking begun pairs left effect resume heffects =>
      rcases hplace with htop | ⟨hbelow, -⟩
      · obtain ⟨_, _, hrunning, -⟩ := hawaits htop
        cases hrunning
      · have hasking : strides (life (deeds trace task) number) =
            (.resumed begun :: forkings pairs) ++ [.performed (.fork effect)] := hacts
        obtain ⟨_, _, _, _, -, -, -, -, hnext⟩ := runs.fork_told hfork hcalm hasking
        rcases hnext with ⟨-, htop⟩ | ⟨_, hnone⟩
        · exact absurd (Roll.head?_eq hpos htop) hbelow
        · cases hnone
  | @forked begun pairs later last heffects follows =>
      obtain ⟨hresumptions, -, hlast⟩ := (hgathering _).follows follows
      rw [handles_forkings begun pairs hresumptions] at hhandles
      rcases hlast with rfl | ⟨left, rfl, gathering⟩
      · have hkeeps : .givenUp ∉ later := fun hmem =>
          runs.not_mem_givenUp hcalm number (mem_strides.1 (hacts ▸ by simp [hmem])).1
        obtain ⟨outcome, hcompleted⟩ := follows.completed (by simp) (by simp) rfl hkeeps
        exact ⟨outcome, (mem_strides.1 (hacts ▸ by simp [hcompleted])).1⟩
      · rcases hplace with htop | ⟨-, hwaits⟩
        · obtain ⟨action, resume, hrunning, hwaiting⟩ := hawaits htop
          cases hrunning
          cases gathering with
          | act hends =>
              obtain ⟨other, hmem, hnone⟩ := hends hwaiting
              have hsome := hsettled other (hhandles ▸ hmem)
              rw [Host.isSettled, hnone] at hsome
              cases hsome
        · cases hwaits

end Order

namespace Concurrent

theorem body_all {operation : Effect} {effects : List Effect} (heffects : effectsOf operation = .ok effects) :
    (allComputation operation).body = forkEach [] awaitAll effects := by
  unfold allComputation Computation.named
  simp only [heffects]
  rfl

theorem body_allSettled {operation : Effect} {effects : List Effect} (heffects : effectsOf operation = .ok effects) :
    (allSettledComputation operation).body = forkEach [] awaitAllSettled effects := by
  unfold allSettledComputation Computation.named
  simp only [heffects]
  rfl

/-- The outcomes of tasks stand in the order of the tasks. -/
theorem forall₂_of_allOutcomes? {host : Host} {tasks : List TaskId} {outcomes : List Outcome}
    (houtcomes : host.allOutcomes? tasks = some outcomes) :
    List.Forall₂ (fun task outcome => host.outcome? task = some outcome) tasks outcomes := by
  induction tasks generalizing outcomes with
  | nil =>
      cases houtcomes
      exact .nil
  | cons task rest ih =>
      unfold Host.allOutcomes? at houtcomes
      split at houtcomes
      · rename_i houtcome hothers
        cases houtcomes
        exact .cons houtcome (ih hothers)
      · cases houtcomes

section Life

variable {acts path : List Act} {begun outcome : Outcome} {host : Host} {effects : List Effect}

/-- If all tasks of `all` succeeded, its value is the list of their values, in order. -/
theorem values_of_all (hreplies : RepliesHold acts host) (hstrides : strides acts = .resumed begun :: path)
    (completes : Completes (forkEach [] awaitAll effects) path outcome) (haccepted : ¬ Refused acts)
    (hsucceeded : ∀ forked ∈ handles acts, ∃ value, host.outcome? forked = some (.ok value)) :
    ∃ values, outcome = .ok (.list values) ∧
      List.Forall₂ (fun forked value => host.outcome? forked = some (.ok value)) (handles acts) values := by
  rcases refused_or_forked awaitAll hstrides completes fun h => (strides_awaitAll h).1 with
    ⟨⟨answer, hanswer, error, hrefused, -⟩, -⟩ | ⟨-, _, later, -, hlater, hawaited⟩
  · exact absurd ⟨answer, hanswer, error, hrefused⟩ haccepted
  · rcases (strides_awaitAll hawaited).2 with ⟨values, hvalues, rfl⟩ | ⟨error, asked, outcomes, before, rfl, -⟩
    · have hall := forall₂_of_allOutcomes? (hreplies _ _ (hlater.subset hvalues))
      exact ⟨values, rfl, (List.forall₂_map_right_iff (f := Except.ok)).1 hall⟩
    · -- the failure that was met would be the one of a task
      obtain ⟨forked, hforked, hfailed⟩ : ∃ forked ∈ handles acts, host.outcome? forked = some (.error error) :=
        hreplies (.firstFailure (handles acts)) (.error error) (hlater.subset List.mem_cons_self)
      obtain ⟨value, hvalue⟩ := hsucceeded forked hforked
      rw [hfailed] at hvalue
      cases hvalue

/-- How `allSettled` tells that a task has settled: as fulfilled with its value, or as rejected with its error. -/
inductive ToldAs (host : Host) (task : TaskId) : Value → Prop
  | fulfilled {value : Value} (hvalue : host.outcome? task = some (.ok value)) : ToldAs host task (.fulfilled value)
  | rejected {error : Error} (herror : host.outcome? task = some (.error error)) : ToldAs host task (.rejected error)

theorem toldAs_settled {task : TaskId} {outcome : Outcome} (houtcome : host.outcome? task = some outcome) :
    ToldAs host task (Value.settled outcome) := by
  cases outcome with
  | ok value => exact .fulfilled houtcome
  | error error => exact .rejected houtcome

/-- The value of `allSettled` is the list of how its tasks settled, in order. -/
theorem told_of_allSettled (hreplies : RepliesHold acts host) (hstrides : strides acts = .resumed begun :: path)
    (completes : Completes (forkEach [] awaitAllSettled effects) path outcome) (haccepted : ¬ Refused acts) :
    ∃ elements, outcome = .ok (.list elements) ∧ List.Forall₂ (ToldAs host) (handles acts) elements := by
  have hquiet {tasks : List TaskId} {later : List Act} (hawaited : Completes (awaitAllSettled tasks) later outcome) :
      resumptions later = [] := by
    obtain ⟨outcomes, rfl, _⟩ := strides_awaitAllSettled hawaited
    rfl
  rcases refused_or_forked awaitAllSettled hstrides completes hquiet with
    ⟨⟨answer, hanswer, error, hrefused, -⟩, -⟩ | ⟨-, _, later, -, hlater, hawaited⟩
  · exact absurd ⟨answer, hanswer, error, hrefused⟩ haccepted
  · obtain ⟨outcomes, rfl, houtcome⟩ := strides_awaitAllSettled hawaited
    have hjoined := forall₂_of_allOutcomes? (hreplies (.join (handles acts)) outcomes (hlater.subset (by simp)))
    exact ⟨outcomes.map Value.settled, houtcome, List.forall₂_map_right_iff.2 (hjoined.imp fun _ _ => toldAs_settled)⟩

end Life

/-- A computation that forks effects and waits for all tasks to settle cancels none. -/
theorem not_mem_cancel {effects : List Effect} {acts : List Act} {last : Progress}
    (forking : Forking awaitAllSettled effects acts last) (task : TaskId) : .acted (.cancel task) () ∉ acts := by
  have hforkings (pairs : List (Effect × TaskId)) : .acted (.cancel task) () ∉ forkings pairs := by
    induction pairs with
    | nil => exact List.not_mem_nil
    | cons pair rest ih => simpa [forkings] using ih
  cases forking with
  | unbegun => exact List.not_mem_nil
  | forking | asking => simp [hforkings]
  | @forked begun pairs later last heffects follows =>
      have hother (tasks : List TaskId) (outcomes : List Outcome) :
          Act.acted (.cancel task) () ≠ .acted (.join tasks) outcomes := by
        intro hsame
        cases hsame
      have hlater : .acted (.cancel task) () ∉ later := by
        unfold awaitAllSettled at follows
        cases follows with
        | done => exact List.not_mem_nil
        | giveUp _ rest =>
            rw [rest.of_finished]
            simp
        | act rest =>
            cases rest with
            | done => simpa using hother _ _
            | complete rest | giveUp _ rest =>
                rw [rest.of_finished]
                simpa using hother _ _
      simp [hforkings, hlater]

/-- What becomes of the effects of `all` or `allSettled` in a run, with the acts of the frame that serves it. -/
structure GathersInOrder (machine : Machine) (first : Host) (trace : Trace) (system : System) (operation : Effect)
    (effects : List Effect) (tag : Option HandlerTag) (acts : List Act) : Prop where
  /-- All effects are forked in order, each as a task of its own, before anything else is done. -/
  forks : .pushed (allComputation operation) tag ∈ acts ∨ .pushed (allSettledComputation operation) tag ∈ acts →
    ForksInOrder machine trace system effects acts
  /-- Either operation has ended when nothing is left to happen and its tasks have settled. -/
  ends : .pushed (allComputation operation) tag ∈ acts ∨ .pushed (allSettledComputation operation) tag ∈ acts →
    Cooperates machine { host := first } trace system → system.step machine = none →
    (∀ forked ∈ handles acts, system.host.isSettled forked = true) → ∃ outcome, .completed outcome ∈ acts
  /-- If all tasks succeed, the value of `all` is the list of their values, in order. -/
  values : .pushed (allComputation operation) tag ∈ acts → ∀ outcome, .completed outcome ∈ acts →
    (∀ forked ∈ handles acts, ∃ value, system.host.outcome? forked = some (.ok value)) →
    ∃ values, outcome = .ok (.list values) ∧
      List.Forall₂ (fun forked value => system.host.outcome? forked = some (.ok value)) (handles acts) values
  /-- The value of `allSettled` is the list of how the tasks settled, in order. -/
  told : .pushed (allSettledComputation operation) tag ∈ acts → ∀ outcome, .completed outcome ∈ acts →
    ∃ elements, outcome = .ok (.list elements) ∧ List.Forall₂ (ToldAs system.host) (handles acts) elements
  /-- No task of `allSettled` is asked to cancel. -/
  keeps : .pushed (allSettledComputation operation) tag ∈ acts → ∀ other, .acted (.cancel other) () ∉ acts

/-- Results follow the order of effects, if all effects are accepted, on a stack that takes note of no cancellation, and
whatever the order in which tasks settle. -/
theorem gathered_in_order {machine : Machine} {first : Host} {trace : Trace} {system : System}
    (runs : Runs machine first trace system) (hfork : machine.registry.hasHandlers Kind.fork = false) {task : TaskId}
    {number : Nat} {operation : Effect} {effects : List Effect} (heffects : effectsOf operation = .ok effects)
    (tag : Option HandlerTag) (hcalm : .noticed ∉ deeds trace task)
    (haccepted : ¬ Refused (life (deeds trace task) number)) :
    GathersInOrder machine first trace system operation effects tag (life (deeds trace task) number) where
  forks := fun hpushed => by
    rcases hpushed with hpushed | hpushed
    · exact runs.forksInOrder hfork hcalm Gathering.awaitAll (body_all heffects) hpushed haccepted
    · exact runs.forksInOrder hfork hcalm Gathering.awaitAllSettled (body_allSettled heffects) hpushed haccepted
  ends := fun hpushed cooperates hstuck => by
    rcases hpushed with hpushed | hpushed
    · exact cooperates.completes runs.new hstuck hfork hcalm Gathering.awaitAll (body_all heffects) hpushed haccepted
    · exact cooperates.completes runs.new hstuck hfork hcalm Gathering.awaitAllSettled (body_allSettled heffects) hpushed
        haccepted
  values := fun hpushed outcome hcompleted hsucceeded => by
    obtain ⟨begun, path, hstrides, completes⟩ := runs.completes hpushed hcompleted
    rw [body_all heffects] at completes
    exact values_of_all (fun _ _ hacted => runs.reply_holds hacted) hstrides completes haccepted hsucceeded
  told := fun hpushed outcome hcompleted => by
    obtain ⟨begun, path, hstrides, completes⟩ := runs.completes hpushed hcompleted
    rw [body_allSettled heffects] at completes
    exact told_of_allSettled (fun _ _ hacted => runs.reply_holds hacted) hstrides completes haccepted
  keeps := fun hpushed other hmem => by
    obtain ⟨later, progress, hlife, plays, hkept, htold, -⟩ :=
      runs.plays_forking hcalm (body_allSettled heffects) hpushed haccepted
    refine not_mem_cancel (plays.forking hkept htold) other (mem_strides.2 ⟨?_, rfl⟩)
    rw [hlife] at hmem
    simpa using hmem

/-! ## A run of each operation -/

/-- A machine that serves both operations. -/
def serving : Machine where
  registry :=
    { handlers :=
        [(Kind.under Kind.concurrent "all", .ofHandle fun operation _ => allComputation operation),
          (Kind.under Kind.concurrent "allSettled", .ofHandle fun operation _ => allSettledComputation operation)] }
  library := ⟨fun _ _ => default⟩

/-- A client that submits an operation, until nothing is left to happen. -/
def gathering (operation : Effect) : Trace × System :=
  (System.submitting (.blank 0) operation).execute serving 61

/-- A client that was served by a frame which forked all effects, and that took note of no cancellation. -/
theorem accepted_of_calm (run : Trace × System) (haccepted : refuses run = false)
    (hcalm : (deeds run.1 ⟨0⟩).any Act.notices = false) :
    ¬ Refused (life (deeds run.1 ⟨0⟩) 1) ∧ .noticed ∉ deeds run.1 ⟨0⟩ := by
  rw [refused_iff, haccepted]
  exact ⟨Bool.false_ne_true, Act.not_mem_of_any hcalm rfl⟩

theorem exists_value {outcome : Option Outcome} (hsucceeded : outcome.any Except.isOk = true) :
    ∃ value, outcome = some (.ok value) := by
  cases outcome with
  | none => cases hsucceeded
  | some outcome =>
      cases outcome with
      | error error => cases hsucceeded
      | ok value => exact ⟨value, rfl⟩

theorem effectsOf_all (effects : List Effect) : effectsOf (all effects) = .ok effects :=
  rfl

theorem effectsOf_allSettled (effects : List Effect) : effectsOf (allSettled effects) = .ok effects :=
  rfl

theorem all_mem_life_gathering (effects : List Effect) :
    .pushed (allComputation (all effects)) (some ⟨(all effects).kind, 0⟩) ∈
      life (deeds (gathering (all effects)).1 ⟨0⟩) 1 := by
  have hsubmission : serving.submission (all effects) = all effects := by
    have hstart : serving.registry.hasHandlers Kind.start = false := by decide +kernel
    simp [Machine.submission, hstart]
  have hhandlers : serving.registry.handlersOf (all effects).operation.kind =
      [.ofHandle fun operation _ => allComputation operation] := by
    simp [Registry.handlersOf, serving, all, Effect.operation, Effect.kind, Kind.under]
  exact Runs.mem_life_submitted hsubmission rfl hhandlers 60

theorem allSettled_mem_life_gathering (effects : List Effect) :
    .pushed (allSettledComputation (allSettled effects)) (some ⟨(allSettled effects).kind, 0⟩) ∈
      life (deeds (gathering (allSettled effects)).1 ⟨0⟩) 1 := by
  have hsubmission : serving.submission (allSettled effects) = allSettled effects := by
    have hstart : serving.registry.hasHandlers Kind.start = false := by decide +kernel
    simp [Machine.submission, hstart]
  have hhandlers : serving.registry.handlersOf (allSettled effects).operation.kind =
      [.ofHandle fun operation _ => allSettledComputation operation] := by
    simp [Registry.handlersOf, serving, allSettled, Effect.operation, Effect.kind, Kind.under]
  exact Runs.mem_life_submitted hsubmission rfl hhandlers 60

/-- Two effects that succeed, the second one first. -/
def succeeding : Trace × System :=
  gathering (all [slow, .bare (.ready .null)])

/-- Two effects, the second one of which fails before the first one succeeds. -/
def settling : Trace × System :=
  gathering (allSettled [slow, .bare (.failing .cancelled)])

/-- Both operations end with what became of their tasks, in order. -/
theorem gathered_of_both :
    (∃ values, .completed (.ok (.list values)) ∈ life (deeds succeeding.1 ⟨0⟩) 1 ∧
      List.Forall₂ (fun forked value => succeeding.2.host.outcome? forked = some (.ok value)) [⟨1⟩, ⟨2⟩] values) ∧
    ∃ value error, .completed (.ok (.list [.fulfilled value, .rejected error])) ∈ life (deeds settling.1 ⟨0⟩) 1 ∧
      settling.2.host.outcome? ⟨1⟩ = some (.ok value) ∧ settling.2.host.outcome? ⟨2⟩ = some (.error error) := by
  have hfork : serving.registry.hasHandlers Kind.fork = false := by decide +kernel
  constructor
  · have cooperates : Cooperates serving _ succeeding.1 succeeding.2 := Cooperates.submitted serving (.blank 0) _ 61
    have hruns : Runs serving _ succeeding.1 succeeding.2 := Runs.submitted serving (.blank 0) _ 61
    obtain ⟨haccepted, hcalm⟩ := accepted_of_calm succeeding (by decide +kernel) (by decide +kernel)
    have hpushed := all_mem_life_gathering [slow, .bare (.ready .null)]
    have hhandles : handles (life (deeds succeeding.1 ⟨0⟩) 1) = [⟨1⟩, ⟨2⟩] := by decide +kernel
    have hstuck : succeeding.2.step serving = none := Option.isNone_iff_eq_none.1 (by decide +kernel)
    have hsettled : ∀ forked ∈ handles (life (deeds succeeding.1 ⟨0⟩) 1), succeeding.2.host.isSettled forked = true := by
      rw [hhandles]
      decide +kernel
    have gathers (tag : Option HandlerTag) :=
      gathered_in_order hruns hfork (effectsOf_all [slow, .bare (.ready .null)]) tag hcalm haccepted
    obtain ⟨outcome, hcompleted⟩ := (gathers _).ends (.inl hpushed) cooperates hstuck hsettled
    have hsucceeded : ∀ forked ∈ handles (life (deeds succeeding.1 ⟨0⟩) 1),
        (succeeding.2.host.outcome? forked).any Except.isOk = true := by
      rw [hhandles]
      decide +kernel
    obtain ⟨values, rfl, hall⟩ := (gathers _).values hpushed outcome hcompleted fun forked hforked =>
      exists_value (hsucceeded forked hforked)
    exact ⟨values, hcompleted, hhandles ▸ hall⟩
  · have cooperates : Cooperates serving _ settling.1 settling.2 := Cooperates.submitted serving (.blank 0) _ 61
    have hruns : Runs serving _ settling.1 settling.2 := Runs.submitted serving (.blank 0) _ 61
    obtain ⟨haccepted, hcalm⟩ := accepted_of_calm settling (by decide +kernel) (by decide +kernel)
    have hpushed := allSettled_mem_life_gathering [slow, .bare (.failing .cancelled)]
    have hhandles : handles (life (deeds settling.1 ⟨0⟩) 1) = [⟨1⟩, ⟨2⟩] := by decide +kernel
    have hstuck : settling.2.step serving = none := Option.isNone_iff_eq_none.1 (by decide +kernel)
    have hsettled : ∀ forked ∈ handles (life (deeds settling.1 ⟨0⟩) 1), settling.2.host.isSettled forked = true := by
      rw [hhandles]
      decide +kernel
    have gathers (tag : Option HandlerTag) :=
      gathered_in_order hruns hfork (effectsOf_allSettled [slow, .bare (.failing .cancelled)]) tag hcalm haccepted
    obtain ⟨outcome, hcompleted⟩ := (gathers _).ends (.inr hpushed) cooperates hstuck hsettled
    obtain ⟨elements, rfl, hall⟩ := (gathers _).told hpushed outcome hcompleted
    rw [hhandles] at hall
    -- the first of them succeeds and the second one fails
    have hfirst : (settling.2.host.outcome? ⟨1⟩).any Except.isOk = true := by decide +kernel
    have hsecond : (settling.2.host.outcome? ⟨2⟩).any Except.isOk = false := by decide +kernel
    cases hall with
    | cons hslow hrest =>
        cases hrest with
        | cons hfailed hnone =>
            cases hnone
            cases hslow with
            | rejected herror => rw [herror] at hfirst; cases hfirst
            | fulfilled hvalue =>
                cases hfailed with
                | fulfilled hother => rw [hother] at hsecond; cases hsecond
                | rejected herror => exact ⟨_, _, hcompleted, hvalue, herror⟩

end Concurrent

end EffectMachine
