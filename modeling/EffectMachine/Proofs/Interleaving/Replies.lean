import EffectMachine.Proofs.Interleaving.Lifting

/-!
# Replies that last

What a computation learns about tasks stays true, however the processes are interleaved: a task that has
settled stays settled, with its outcome.

* `Action.Holds` is what the reply to an action says about the host.
* `Runs.reply_holds` says that it is still true at any later time.
-/

namespace EffectMachine

namespace Host

variable {host later : Host}

/-- The outcomes of tasks that have settled are those of later. -/
theorem Later.allOutcomes? (hlater : host.Later later) {tasks : List TaskId} {outcomes : List Outcome}
    (houtcomes : host.allOutcomes? tasks = some outcomes) : later.allOutcomes? tasks = some outcomes := by
  induction tasks generalizing outcomes with
  | nil => exact houtcomes
  | cons task rest ih =>
      unfold Host.allOutcomes? at houtcomes ⊢
      split at houtcomes
      · rename_i outcome others houtcome hothers
        rw [hlater.outcome? houtcome, ih hothers]
        exact houtcomes
      · cases houtcomes

/-- Tasks whose outcomes are all known have settled. -/
theorem isSettled_of_allOutcomes? {tasks : List TaskId} {outcomes : List Outcome}
    (houtcomes : host.allOutcomes? tasks = some outcomes) : ∀ task ∈ tasks, host.isSettled task = true := by
  induction tasks generalizing outcomes with
  | nil =>
      intro task hmem
      cases hmem
  | cons first rest ih =>
      unfold Host.allOutcomes? at houtcomes
      split at houtcomes
      · rename_i outcome others houtcome hothers
        intro task hmem
        rcases List.mem_cons.1 hmem with rfl | hrest
        · rw [isSettled, houtcome]
          rfl
        · exact ih hothers task hrest
      · cases houtcomes

/-- Tasks that have all succeeded have settled with their values. -/
theorem allOutcomes?_of_firstFailure? {tasks : List TaskId} {values : List Value}
    (hvalues : host.firstFailure? tasks = some (.ok values)) :
    host.allOutcomes? tasks = some (values.map Except.ok) := by
  induction tasks generalizing values with
  | nil =>
      cases hvalues
      rfl
  | cons task rest ih =>
      unfold firstFailure? at hvalues
      split at hvalues
      · cases hvalues
      · cases hvalues
      · rename_i value others houtcome hothers
        cases hvalues
        rw [Host.allOutcomes?, houtcome, ih hothers]
        rfl
      · cases hvalues

/-- The first failure among tasks is the failure of one of them. -/
theorem exists_of_firstFailure? {tasks : List TaskId} {error : Error}
    (herror : host.firstFailure? tasks = some (.error error)) :
    ∃ task ∈ tasks, host.outcome? task = some (.error error) := by
  induction tasks with
  | nil => cases herror
  | cons task rest ih =>
      unfold firstFailure? at herror
      split at herror
      · rename_i houtcome
        cases herror
        exact ⟨task, List.mem_cons_self, houtcome⟩
      · rename_i hothers _
        cases herror
        obtain ⟨other, hmem, houtcome⟩ := ih hothers
        exact ⟨other, List.mem_cons_of_mem _ hmem, houtcome⟩
      · cases herror
      · cases herror

end Host

/-- What the reply to an action says about the tasks of the host. -/
def Action.Holds (host : Host) : (action : Action) → action.Reply → Prop
  | .settlements, isSettled => ∀ task, (isSettled : TaskId → Bool) task = true → host.isSettled task = true
  | .settled task, known => (known : Bool) = true → host.isSettled task = true
  | .join tasks, outcomes => host.allOutcomes? tasks = some outcomes
  | .firstFailure tasks, .ok values => host.allOutcomes? tasks = some (values.map Except.ok)
  | .firstFailure tasks, .error error => ∃ task ∈ tasks, host.outcome? task = some (.error error)
  | _, _ => True

namespace Action

variable {host next : Host} {action : Action} {reply : action.Reply}

/-- What a reply says lasts. -/
theorem Holds.later (hlater : host.Later next) (hholds : action.Holds host reply) :
    action.Holds next reply := by
  cases action with
  | settlements => exact fun task hsettled => hlater.isSettled (hholds task hsettled)
  | settled task => exact fun hsettled => hlater.isSettled (hholds hsettled)
  | join tasks => exact hlater.allOutcomes? hholds
  | firstFailure tasks =>
      cases reply with
      | ok values => exact hlater.allOutcomes? hholds
      | error error =>
          obtain ⟨task, hmem, houtcome⟩ := hholds
          exact ⟨task, hmem, hlater.outcome? houtcome⟩
  | _ => trivial

/-- What a reply says is true when it is given. -/
theorem holds_of_react (hreact : host.react action = .reply next reply) : action.Holds host reply := by
  cases action with
  | settlements =>
      cases hreact
      exact fun task hsettled => hsettled
  | settled task =>
      cases hreact
      exact fun hsettled => hsettled
  | join tasks =>
      simp only [Host.react, Host.look] at hreact
      split at hreact
      · rename_i hanswer
        cases hreact
        exact hanswer
      · cases hreact
  | firstFailure tasks =>
      simp only [Host.react, Host.look] at hreact
      split at hreact
      · rename_i answer hanswer
        cases hreact
        cases reply with
        | ok values => exact Host.allOutcomes?_of_firstFailure? hanswer
        | error error => exact Host.exists_of_firstFailure? hanswer
      · cases hreact
  | _ => trivial

/-- What a computation gives way with says nothing about tasks. -/
theorem holds_of_giveWay (hreact : host.react action = .giveWay next reply) : action.Holds host reply := by
  cases action with
  | join tasks | firstFailure tasks =>
      simp only [Host.react, Host.look] at hreact
      split at hreact <;> cases hreact
  | settlements | settled => cases hreact
  | _ => trivial

end Action

/-- What the computations of a process were told holds. -/
def RepliesHold (acts : List Act) (host : Host) : Prop :=
  ∀ action reply, .acted action reply ∈ acts → action.Holds host reply

/-- Replies hold on while a host grows. -/
theorem RepliesHold.later {acts : List Act} {host later : Host} (hlater : host.Later later)
    (hold : RepliesHold acts host) : RepliesHold acts later :=
  fun action reply hmem => (hold action reply hmem).later hlater

/-- Every act keeps the replies true. -/
theorem RepliesHold.does {acts : List Act} {run next : Run} {act : Act} (hdoes : run.Does act next)
    (hold : RepliesHold acts run.host) : RepliesHold (acts ++ [act]) next.host := by
  have hlater := hdoes.grows.later
  intro action reply hmem
  rcases List.mem_append.1 hmem with hearlier | hlast
  · exact (hold action reply hearlier).later hlater
  · cases List.mem_singleton.1 hlast
    cases hdoes with
    | act _ resume host _ hrunning hreact =>
        rcases hreact with hreact | hreact
        · exact (Action.holds_of_react hreact).later hlater
        · exact (Action.holds_of_giveWay hreact).later hlater

/-- What a computation was told about tasks is still true at any later time. -/
theorem Runs.reply_holds {machine : Machine} {first : Host} {trace : Trace} {system : System}
    (runs : Runs machine first trace system) {task : TaskId} {number : Nat} {action : Action}
    {reply : action.Reply} (hacted : .acted action reply ∈ life (deeds trace task) number) :
    action.Holds system.host reply := by
  have hinvariant : Invariant fun acts run => RepliesHold acts run.host :=
    { fresh := fun _ _ _ _ _ hmem => nomatch hmem
      again := fun _ _ _ hold => hold
      later := fun hlater hold => hold.later hlater
      act := fun hdoes hold => hold.does hdoes }
  exact runs.holds_of_deeds hinvariant task action reply (mem_of_mem_life hacted)

end EffectMachine
