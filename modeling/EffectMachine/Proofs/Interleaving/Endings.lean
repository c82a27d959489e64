import EffectMachine.Proofs.Cancellation.Account
import EffectMachine.Proofs.Interleaving.Protocols

/-!
# Processes that have come to rest

Once the stack of a process is down to its sentinel, every frame that was ever on it has left or was discarded.
Its computation then has ended, or waits for the outcome of an effect that will never come.

* `System.AtRest` says that a process has nothing on its stack.
* `Runs.stops` says that the computations of a process at rest which were not given up have stopped, and
  `Runs.completed_of_rest` that they have completed unless their frames were discarded.
* `Runs.on_top_or_waits` says that a computation that has not stopped is the one of the top frame of its process.
* `Runs.not_mem_givenUp` says that nothing is given up unless the stack takes note of a cancellation.
-/

namespace EffectMachine

/-- The computation of a frame that waits has ended, or waits for the outcome of an effect. -/
theorem Stage.At.waits {stage : Stage} {progress : Progress} (hat : stage.At progress) (hwaits : stage.Waits) :
    progress.Waits := by
  cases hat with
  | asking | doomed | ended => trivial
  | fresh | running | answered | unborn => cases hwaits

/-- Frames that are gone have stopped. -/
def GoneWait (acts : List Act) : Prop :=
  ∀ number, 0 < number → number < (Roll.after acts).next → number ∉ (Roll.after acts).live →
    ∃ progress, Lives acts number progress ∧ progress.Waits

/-- The computation of the top frame is where its frame has come to. -/
theorem Watched.lives_top {acts : List Act} {run : Run} {number : Nat} (watched : Watched lives acts run)
    (hhead : (Roll.after acts).live.head? = some number) (hpos : 0 < number) :
    Lives acts number run.stack.top.progress := by
  obtain ⟨rest, hlive⟩ := List.head?_eq_some_iff.1 hhead
  have hkept := watched.kept
  rw [hlive] at hkept
  cases hkept with
  | cons hfirst _ => exact hfirst hpos

/-- A frame that leaves or is discarded has stopped. -/
theorem Lives.pop {acts : List Act} {run : Run} {act : Act} {stages after : List Stage} {number : Nat}
    (lives : Lives acts number run.stack.top.progress) (stands : Stands stages run.frames)
    (hprotocol : Protocol stages act after) (hactor : (Roll.after acts).actor act = number)
    (hpops : act = .dropped ∨ act = .left) :
    ∃ progress, Lives (acts ++ [act]) number progress ∧ progress.Waits := by
  have hgone {top : Stage} {others : List Stage} (hstages : stages = top :: others) (hwaits : top.Waits) :
      run.stack.top.progress.Waits := by
    subst hstages
    cases stands with
    | above hagrees => exact hagrees.progress.waits hwaits
  refine ⟨run.stack.top.progress, lives.concat hactor (.aside ?_ (.done _)), ?_⟩
  · rcases hpops with rfl | rfl <;> rfl
  · rcases hpops with rfl | rfl
    · cases hprotocol with
      | drop hwaits => exact hgone rfl hwaits
      | top hdoes => cases hdoes
    · cases hprotocol with
      | leave hwaits outcome => exact hgone rfl trivial
      | top hdoes => cases hdoes

/-- Frames that are gone have stopped, after any act that the protocol knows. -/
theorem GoneWait.does {acts : List Act} {run next : Run} {act : Act} {stages after : List Stage}
    (gone : GoneWait acts) (watched : Watched lives acts run) (stands : Stands stages run.frames)
    (hprotocol : Protocol stages act after) (hdoes : run.Does act next) : GoneWait (acts ++ [act]) := by
  intro number hpos hnext hgone
  by_cases hlive : number ∈ (Roll.after acts).live
  · rw [Roll.after_concat] at hgone
    have hhead := Roll.head_of_not_mem_apply hlive hgone
    have htop := watched.lives_top hhead hpos
    have hactor : act = .dropped ∨ act = .left := by
      cases act with
      | dropped => exact .inl rfl
      | left => exact .inr rfl
      | pushed computation tag => exact absurd (List.mem_cons_of_mem _ hlive) hgone
      | _ => exact absurd hlive hgone
    refine htop.pop stands hprotocol (Roll.actor_of_head hhead ?_) hactor
    rcases hactor with rfl | rfl <;> simp
  · obtain ⟨progress, hlives, hwaits⟩ := gone number hpos (Watched.lt_of_concat hnext hgone) hlive
    exact ⟨progress, hlives.stay (watched.tracks.actor_ne act (Watched.lt_of_concat hnext hgone) hlive), hwaits⟩

/-- Frames that are gone have stopped, in every process at any time. -/
theorem goneWait_ordered : OrderedInvariant fun acts run => Watched lives acts run ∧ GoneWait acts where
  fresh := fun context signal host => ⟨.initial lives rfl, fun number hpos hnext => by
    have hless : number < 1 := hnext
    omega⟩
  again := fun context signal hbelow ⟨watched, gone⟩ => ⟨watched.again context signal hbelow, gone⟩
  later := fun hlater ⟨watched, gone⟩ => ⟨(Watched.invariant lives).later hlater watched, gone⟩
  act := fun _ stands hprotocol hdoes ⟨watched, gone⟩ =>
    ⟨watched.does hdoes, gone.does watched stands hprotocol hdoes⟩

/-- A process has nothing on its stack, if it has one. -/
def System.AtRest (system : System) (task : TaskId) : Prop :=
  ∀ stack, system.driven? task = some stack → stack.below = []

/-- A process that drives no stack is at rest. -/
theorem System.AtRest.of_isNone {system : System} {task : TaskId} (hnone : (system.driven? task).isNone = true) :
    system.AtRest task := by
  intro stack hdriven
  rw [hdriven] at hnone
  cases hnone

/-- A process at rest drives a stack that is down to its sentinel. -/
theorem System.AtRest.exists_drives {system : System} {task : TaskId} (hrest : system.AtRest task) :
    ∃ stack, Drives (system.driven? task) stack ∧ stack.below = [] := by
  cases hdriven : system.driven? task with
  | none => exact ⟨{ context := default, signal := none }, ⟨_, _, rfl⟩, rfl⟩
  | some stack => exact ⟨stack, rfl, hrest stack hdriven⟩

/-- Only the sentinel is on a stack that is down to it. -/
theorem Tracks.not_mem_live {acts : List Act} {run : Run} {number : Nat} (tracks : Tracks acts run)
    (hbelow : run.stack.below = []) (hpos : 0 < number) : number ∉ (Roll.after acts).live := by
  have hlength := tracks.length
  have hsentinel := tracks.sound.sentinel
  rw [hbelow] at hlength
  obtain ⟨last, hlive⟩ := List.length_eq_one_iff.1 hlength
  rw [hlive] at hsentinel ⊢
  cases hsentinel
  simpa using Nat.ne_of_gt hpos

/-- A frame that was pushed has a number that was given out. -/
theorem Tracks.lt_next_of_mem {acts : List Act} {run : Run} {number : Nat} {act : Act} (tracks : Tracks acts run)
    (hmem : act ∈ life acts number) : number < (Roll.after acts).next := by
  by_contra hunborn
  rw [tracks.unborn number (Nat.le_of_not_lt hunborn)] at hmem
  cases hmem

namespace Runs

variable {machine : Machine} {first : Host} {trace : Trace} {system : System} {task : TaskId} {number : Nat}
variable {computation : Computation} {tag : Option HandlerTag}

/-- A computation of a process at rest that was not given up has stopped. -/
theorem stops (runs : Runs machine first trace system) (hrest : system.AtRest task)
    (hpushed : .pushed computation tag ∈ life (deeds trace task) number)
    (hkept : .givenUp ∉ life (deeds trace task) number) :
    ∃ begun rest, strides (life (deeds trace task) number) = .resumed begun :: rest ∧ Stops computation.body rest := by
  obtain ⟨stack, hdrives, hbelow⟩ := hrest.exists_drives
  obtain ⟨_, _, _, watched, gone⟩ := runs.holds_ordered goneWait_ordered task hdrives
  have hpos := pos_of_pushed hpushed
  obtain ⟨progress, ⟨other, otherTag, later, hlife, plays⟩, hwaits⟩ :=
    gone number hpos (watched.tracks.lt_next_of_mem hpushed) (watched.tracks.not_mem_live hbelow hpos)
  have hstrides : strides (life (deeds trace task) number) = strides later := by
    rw [hlife]
    rfl
  rw [hlife] at hpushed hkept
  rcases List.mem_cons.1 hpushed with hhead | hlater
  · cases hhead
    rw [hstrides]
    refine plays.follows.stops (fun hmem => hkept ?_) hwaits
    exact List.mem_cons_of_mem _ (mem_strides.1 hmem).1
  · exact absurd hlater (plays.not_mem_pushed computation tag)

/-- A computation of a process at rest has completed, unless it was given up or its frame was discarded. -/
theorem completed_of_rest (runs : Runs machine first trace system) (hrest : system.AtRest task)
    (hpushed : .pushed computation tag ∈ life (deeds trace task) number)
    (hkept : .givenUp ∉ life (deeds trace task) number) (hdropped : .dropped ∉ life (deeds trace task) number) :
    ∃ outcome, .completed outcome ∈ life (deeds trace task) number := by
  obtain ⟨stack, hdrives, hbelow⟩ := hrest.exists_drives
  have watched := runs.holds (Watched.invariant account) task hdrives
  have hpos := pos_of_pushed hpushed
  have settled := watched.gone number hpos (watched.tracks.lt_next_of_mem hpushed)
    (watched.tracks.not_mem_live hbelow hpos)
  cases settled.ended with
  | completed outcome hcompleted => exact ⟨outcome, hcompleted⟩
  | dropped hmem => exact absurd hmem hdropped
  | givenUp hmem => exact absurd hmem hkept

end Runs

/-- Frames above the sentinel have stopped if all their stages wait. -/
theorem Stands.waits {stages : List Stage} {frames : List Frame} (stands : Stands stages frames)
    (hwaits : ∀ stage ∈ stages, stage.Waits) {frame : Frame} (hmem : frame ∈ frames) :
    frame.progress = .root ∨ frame.progress.Waits := by
  induction stands with
  | sentinel hroot htag =>
      rw [List.mem_singleton.1 hmem]
      exact .inl hroot
  | above hagrees _ stands ih =>
      rcases List.mem_cons.1 hmem with rfl | hbelow
      · exact .inr (hagrees.progress.waits (hwaits _ List.mem_cons_self))
      · exact ih (fun stage hstage => hwaits stage (List.mem_cons_of_mem _ hstage)) hbelow

/-- A computation of a frame is no sentinel. -/
theorem Plays.ne_root {first last : Progress} {acts : List Act} (plays : Plays first acts last) (hfirst : first ≠ .root) :
    last ≠ .root := by
  induction plays with
  | done => exact hfirst
  | aside _ _ ih => exact ih hfirst
  | vacate => exact absurd rfl hfirst
  | _ =>
      rename_i ih
      exact ih (by simp)

/-- A frame lives the computation that it was pushed with. -/
theorem Lives.of_pushed {acts : List Act} {number : Nat} {progress : Progress} {computation : Computation}
    {tag : Option HandlerTag} (lives : Lives acts number progress) (hpushed : .pushed computation tag ∈ life acts number) :
    ∃ later, life acts number = .pushed computation tag :: later ∧ Plays (.fresh computation.body) later progress := by
  obtain ⟨other, otherTag, later, hlife, plays⟩ := lives
  rw [hlife] at hpushed
  rcases List.mem_cons.1 hpushed with hhead | hlater
  · cases hhead
    exact ⟨later, hlife, plays⟩
  · exact absurd hlater (plays.not_mem_pushed computation tag)

/-- A computation is the one of the top frame of its process, or has stopped. -/
theorem Runs.on_top_or_waits {machine : Machine} {first : Host} {trace : Trace} {system : System} {task : TaskId}
    {number : Nat} {computation : Computation} {tag : Option HandlerTag} (runs : Runs machine first trace system)
    (hpushed : .pushed computation tag ∈ life (deeds trace task) number) :
    ∃ later progress, life (deeds trace task) number = .pushed computation tag :: later ∧
      Plays (.fresh computation.body) later progress ∧
      ((Roll.after (deeds trace task)).live.head? = some number ∧
        (∃ stack, system.driven? task = some stack ∧ stack.top.progress = progress) ∨
      (Roll.after (deeds trace task)).live.head? ≠ some number ∧ progress.Waits) := by
  obtain ⟨stack, hdrives⟩ := exists_drives (system.driven? task)
  obtain ⟨stages, -, stands, watched, gone⟩ := runs.holds_ordered goneWait_ordered task hdrives
  have hpos := pos_of_pushed hpushed
  by_cases hlive : number ∈ (Roll.after (deeds trace task)).live
  · have habove : stack.below ≠ [] := fun hbelow => watched.tracks.not_mem_live hbelow hpos hlive
    obtain ⟨parent, rest, hbelow⟩ := List.exists_cons_of_ne_nil habove
    obtain ⟨head, others, hnumbers⟩ := List.exists_cons_of_ne_nil (List.ne_nil_of_mem hlive)
    by_cases hhead : head = number
    · subst hhead
      have htop : (Roll.after (deeds trace task)).live.head? = some head := by rw [hnumbers]; rfl
      obtain ⟨later, hlife, plays⟩ := (watched.lives_top htop hpos).of_pushed hpushed
      refine ⟨later, _, hlife, plays, .inl ⟨htop, stack, ?_, rfl⟩⟩
      cases hdriven : system.driven? task with
      | some driven =>
          rw [hdriven] at hdrives
          rw [show stack = driven from hdrives]
      | none =>
          rw [hdriven] at hdrives
          obtain ⟨_, _, rfl⟩ := hdrives
          exact absurd rfl habove
    · -- frames below the top one wait
      have hkept := watched.kept
      rw [hnumbers] at hkept hlive
      cases hkept with
      | cons _ hkept =>
          obtain ⟨frame, hframe, hlives⟩ :=
            Watch.Kept.exists_of_mem hkept ((List.mem_cons.1 hlive).resolve_left (Ne.symm hhead)) hpos
          obtain ⟨later, hlife, plays⟩ := Lives.of_pushed hlives hpushed
          refine ⟨later, _, hlife, plays, .inr ⟨by simpa [hnumbers] using hhead, ?_⟩⟩
          rw [hbelow] at stands hframe
          obtain ⟨stage, others, rfl, -, -, below⟩ := stands.exists_above
          exact (below.waits stands.waits_of_mem hframe).resolve_left (plays.ne_root (by simp))
  · obtain ⟨progress, hlives, hwaits⟩ := gone number hpos (watched.tracks.lt_next_of_mem hpushed) hlive
    obtain ⟨later, hlife, plays⟩ := hlives.of_pushed hpushed
    exact ⟨later, progress, hlife, plays, .inr ⟨fun hhead => hlive (List.mem_of_head? hhead), hwaits⟩⟩

/-- Whether a computation is to be given up. -/
def Stage.isDoomed : Stage → Bool
  | .doomed _ => true
  | _ => false

/-- No computation is to be given up by what its frame is told. -/
theorem Stage.isDoomed_told (stage : Stage) (outcome : Outcome) : (stage.told outcome).isDoomed = stage.isDoomed := by
  cases stage with
  | ended own => cases own <;> cases outcome <;> rfl
  | _ => rfl

/-- Nothing is given up unless the stack takes note of a cancellation. -/
theorem Obeys.going {acts : List Act} {stages : List Stage} (obeys : Obeys acts stages) (hquiet : .noticed ∉ acts) :
    .givenUp ∉ acts ∧ ∀ stage ∈ stages, stage.isDoomed = false := by
  induction obeys with
  | start => exact ⟨List.not_mem_nil, List.forall_mem_nil _⟩
  | @act acts act stages after obeys hprotocol ih =>
      obtain ⟨hgivenUp, hstages⟩ := ih fun hmem => hquiet (List.mem_append_left _ hmem)
      have hnotice : act ≠ .noticed := fun hact => hquiet (by simp [hact])
      have hlater (hother : act ≠ .givenUp) : .givenUp ∉ acts ++ [act] := by
        simpa [hgivenUp] using hother.symm
      cases hprotocol with
      | push hwaits computation tag => exact ⟨hlater (by simp), List.forall_mem_cons.2 ⟨rfl, hstages⟩⟩
      | drop hwaits => exact ⟨hlater (by simp), (List.forall_mem_cons.1 hstages).2⟩
      | @leave stages hwaits outcome =>
          refine ⟨hlater (by simp), ?_⟩
          have hbelow := (List.forall_mem_cons.1 hstages).2
          cases stages with
          | nil => exact List.forall_mem_nil _
          | cons stage stages =>
              obtain ⟨hstage, hrest⟩ := List.forall_mem_cons.1 hbelow
              exact List.forall_mem_cons.2 ⟨(stage.isDoomed_told outcome).trans hstage, hrest⟩
      | @«catch» top hwaits error stages =>
          obtain ⟨htop, hbelow⟩ := List.forall_mem_cons.1 hstages
          refine ⟨hlater (by simp), List.forall_mem_cons.2 ⟨?_, ?_⟩⟩
          · cases top <;> first | rfl | exact htop
          · exact List.forall_mem_cons.2 ⟨rfl, (List.forall_mem_cons.1 hbelow).2⟩
      | notice hidle => exact absurd rfl hnotice
      | @top top later act hdoes stages =>
          obtain ⟨htop, hbelow⟩ := List.forall_mem_cons.1 hstages
          have hact : act ≠ .givenUp := by
            rintro rfl
            cases hdoes
            cases htop
          refine ⟨hlater hact, List.forall_mem_cons.2 ⟨?_, hbelow⟩⟩
          cases hdoes with
          | answer | fail | fork => exact (top.isDoomed_told _).trans htop
          | defer => exact htop
          | _ => rfl
      | baseDefer | baseAnswer | baseFail | baseFork => exact ⟨hlater (by simp), List.forall_mem_nil _⟩

/-- A process that takes note of no cancellation gives no computation up. -/
theorem Runs.not_mem_givenUp {machine : Machine} {first : Host} {trace : Trace} {system : System} {task : TaskId}
    (runs : Runs machine first trace system) (hquiet : .noticed ∉ deeds trace task) (number : Nat) :
    .givenUp ∉ life (deeds trace task) number := by
  obtain ⟨stages, obeys⟩ := runs.exists_obeys task
  exact fun hmem => (obeys.going hquiet).1 (mem_of_mem_life hmem)

end EffectMachine
