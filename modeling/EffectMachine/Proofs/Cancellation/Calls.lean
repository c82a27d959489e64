import EffectMachine.Plugin.Concurrent
import EffectMachine.Proofs.Interleaving.Careers
import EffectMachine.Proofs.Interleaving.Replies

/-!
# Calls that cancel a task

A body that cancels a task looks whether the task has settled; if it has not, it asks the task to cancel and
waits for its outcome.  Such a call may be made by a computation on a stack or by a client, at any time, and
while it waits the other processes go on in any order.

* `System.Evaluates` says that a process is at some body.  `Moves.evaluates` says how a process goes on
  that is at an action, whoever moves.
* `Concurrent.CallStage` is how far a call has come, and `Concurrent.CancelAnswer` what it has to answer for an outcome.
* `Concurrent.pending_or_returned` is the main statement: a call goes on, or it has returned with the task settled.
-/

namespace EffectMachine

/-- A process is about to carry out a body, as a client or on the top frame of a stack. -/
def Activity.Evaluates : Activity → Body → Prop
  | .client (.evaluate _ running), body => running = body
  | .task stack, body | .run stack _, body => stack.below ≠ [] ∧ stack.top.progress = .running body
  | _, _ => False

/-- A process of a system is about to carry out a body. -/
def System.Evaluates (system : System) (task : TaskId) (body : Body) : Prop :=
  ∃ activity, system.activity? task = some activity ∧ activity.Evaluates body

section Evaluation

variable {machine : Machine} {task : TaskId} {action : Action} {resume : action.Reply → Body}

/-- A stack whose top frame is at an action tries it. -/
theorem Machine.step_of_act {stack : Stack} {host : Host} (habove : stack.below ≠ [])
    (hrunning : stack.top.progress = .running (.act action resume)) :
    let next := (machine.step { stack, host }).next
    (next.below ≠ [] ∧ next.top.progress = .running (.act action resume)) ∨
      ∃ reply, (host.react action = .reply (machine.step { stack, host }).host reply ∨
        host.react action = .giveWay (machine.step { stack, host }).host reply) ∧
        next.below ≠ [] ∧ next.top.progress = .running (resume reply) := by
  simp only [step, hrunning, act]
  cases hreact : host.react action with
  | reply later answer => exact .inr ⟨answer, .inl rfl, habove, rfl⟩
  | giveWay later answer => exact .inr ⟨answer, .inr rfl, habove, rfl⟩
  | wait later occasions => exact .inl ⟨habove, hrunning⟩

/-- A process that is at an action tries it, and goes on with the reply if it gets one. -/
theorem Machine.Advances.evaluates {host later : Host} {activity after : Activity} {own : List Act}
    (hadvances : machine.Advances task host activity own after later)
    (hat : activity.Evaluates (.act action resume)) :
    after.Evaluates (.act action resume) ∨
      ∃ reply, (host.react action = .reply later reply ∨ host.react action = .giveWay later reply) ∧
        after.Evaluates (resume reply) := by
  cases hadvances with
  | step stack habove => exact step_of_act hat.1 hat.2
  | runStep stack _ habove => exact step_of_act hat.1 hat.2
  | settle stack hbelow => exact absurd hbelow hat.1
  | runEnd stack _ hbelow => exact absurd hbelow hat.1
  | act context _ _ reply later hreact =>
      cases hat
      exact .inr ⟨reply, hreact, rfl⟩
  | wait context _ _ later occasions hreact => exact .inl hat
  | submit context effect _ => cases hat
  | done context outcome => cases hat
  | begin | sendOut | gather | await | report | rest => exact hat.elim

/-- Whoever moves, a process that is at an action is still there, or goes on with the reply of the host. -/
theorem Moves.evaluates {system next : System} {acts : Trace} (hmoves : Moves machine system acts next)
    (hsound : system.Sound) (hat : system.Evaluates task (.act action resume)) :
    next.Evaluates task (.act action resume) ∨
      ∃ later reply, (system.host.react action = .reply later reply ∨
        system.host.react action = .giveWay later reply) ∧ next.Evaluates task (resume reply) := by
  obtain ⟨activity, hactivity, hbody⟩ := hat
  rcases hmoves.activity hsound hactivity with ⟨-, hkept⟩ | ⟨after, later, hadvances, -, hafter⟩
  · exact .inl ⟨activity, hkept, hbody⟩
  · rcases hadvances.evaluates hbody with hstill | ⟨reply, hreact, hnext⟩
    · exact .inl ⟨after, hafter, hstill⟩
    · exact .inr ⟨later, reply, hreact, after, hafter, hnext⟩

end Evaluation

/-! ## Calls -/

namespace Concurrent

variable {task : TaskId} {failed : Error → Body} {rest : Body}

/-- How a body goes on after a call. -/
def returning (failed : Error → Body) (rest : Body) : Option Error → Body
  | some failure => failed failure
  | none => rest

/-- A call waits for the outcomes of tasks. -/
def awaiting (failed : Error → Body) (rest : Body) (tasks : List TaskId) : Body :=
  .act (.join tasks) fun (outcomes : List Outcome) =>
    returning failed rest (outcomes.filterMap cancelFailure).head?

/-- How far a call has come that found the task settled, or found it not settled. -/
inductive CallStage (task : TaskId) (failed : Error → Body) (rest : Body) : Bool → Body → Prop
  | done : CallStage task failed rest true (awaiting failed rest [])
  | announcing : CallStage task failed rest false
      (.emit (.cancelling task) (.act (.cancel task) fun _ => awaiting failed rest [task]))
  | asking : CallStage task failed rest false (.act (.cancel task) fun _ => awaiting failed rest [task])
  | awaiting : CallStage task failed rest false (awaiting failed rest [task])

/-- What a call has to answer for the outcome of the task. -/
inductive CancelAnswer : Outcome → Option Error → Prop
  | value (value : Value) : CancelAnswer (.ok value) none
  | clean {error : Error} (hcancellation : error.isCancellation = true) (hclean : error.attached = []) :
      CancelAnswer (.error error) none
  | cleanup {error failure : Error} {others : List Error} (hcancellation : error.isCancellation = true)
      (hattached : error.attached = failure :: others) : CancelAnswer (.error error) (some failure)
  | own {error : Error} (hown : error.isCancellation = false) : CancelAnswer (.error error) (some error)

/-- What is left to report of a task is what a call has to answer. -/
theorem cancelAnswer (outcome : Outcome) : CancelAnswer outcome (cancelFailure outcome) := by
  cases outcome with
  | ok value => exact .value value
  | error error =>
      unfold cancelFailure
      by_cases hcancellation : error.isCancellation = true
      · simp only [hcancellation, if_true]
        cases hattached : error.attached with
        | nil => exact .clean hcancellation hattached
        | cons failure others => exact .cleanup hcancellation hattached
      · simp only [hcancellation]
        exact .own (by simpa using hcancellation)

/-- How a call goes on that has looked whether the task has settled. -/
def looked (task : TaskId) (failed : Error → Body) (rest : Body) (settled : Bool) : Body :=
  if settled then awaiting failed rest []
  else .emit (.cancelling task) (.act (.cancel task) fun _ => awaiting failed rest [task])

/-- A call begins with a look whether the task has settled. -/
theorem cancelOne_eq (task : TaskId) (failed : Error → Body) (rest : Body) :
    cancelOne task failed rest = .act (.settled task) fun (settled : Bool) => looked task failed rest settled := by
  show cancelEach [task] _ = cancelEach [task] fun failures => returning failed rest failures.head?
  refine congrArg (cancelEach [task]) (funext fun failures => ?_)
  cases failures <;> rfl

/-- What a call does depends on what it saw. -/
theorem callStage_of_look (task : TaskId) (failed : Error → Body) (rest : Body) (settled : Bool) :
    CallStage task failed rest settled (looked task failed rest settled) := by
  cases settled with
  | true => exact .done
  | false => exact .announcing

/-- A call has returned: it looked whether the task had settled, and went on with its answer once it had. -/
inductive Returned (machine : Machine) (caller task : TaskId) (failed : Error → Body) (rest : Body)
    (system later : System) : Prop
  | intro {first second third : Trace} {looked back : System} {answer : Option Error} {outcome : Outcome}
      (hfirst : Proceeds machine system first looked)
      (hlooked : looked.Evaluates caller (cancelOne task failed rest))
      (hsecond : Proceeds machine looked second back)
      (hback : back.Evaluates caller (returning failed rest answer))
      (hthird : Proceeds machine back third later)
      (hsettled : back.host.outcome? task = some outcome)
      (hover : looked.host.isSettled task = true → answer = none)
      (hanswer : looked.host.isSettled task = false → CancelAnswer outcome answer)

/-- A call has not returned. -/
inductive Pending (machine : Machine) (caller task : TaskId) (failed : Error → Body) (rest : Body)
    (system later : System) : Prop
  | looking (hat : later.Evaluates caller (cancelOne task failed rest))
  | looked {first second : Trace} {looked : System} {body : Body} (hfirst : Proceeds machine system first looked)
      (hlooked : looked.Evaluates caller (cancelOne task failed rest))
      (hsecond : Proceeds machine looked second later)
      (hstage : CallStage task failed rest (looked.host.isSettled task) body) (hat : later.Evaluates caller body)

section Progress

variable {machine : Machine} {caller : TaskId} {system looked middle next : System} {acts first second more : Trace}

/-- A call that looks whether the task has settled sees what the host knows. -/
theorem Pending.look (hfirst : Proceeds machine system first middle) (hmoves : Moves machine middle acts next)
    (hsound : middle.Sound) (hat : middle.Evaluates caller (cancelOne task failed rest)) :
    Pending machine caller task failed rest system next := by
  have hlooked := hat
  rw [cancelOne_eq] at hat
  rcases hmoves.evaluates hsound hat with hstill | ⟨later, reply, hreact, hnext⟩
  · rw [← cancelOne_eq] at hstill
    exact .looking hstill
  · have hreply : reply = middle.host.isSettled task := by
      rcases hreact with hreact | hreact <;> cases hreact
      rfl
    rw [hreply] at hnext
    have hsecond := Proceeds.move .start hmoves
    exact .looked hfirst hlooked hsecond (callStage_of_look task failed rest _) hnext

/-- A call that found the task settled returns at once. -/
theorem Pending.done (hfirst : Proceeds machine system first looked)
    (hlooked : looked.Evaluates caller (cancelOne task failed rest)) (hsecond : Proceeds machine looked second middle)
    (hmoves : Moves machine middle acts next) (hsound : system.Sound) (hsettled : looked.host.isSettled task = true)
    (hat : middle.Evaluates caller (awaiting failed rest [])) :
    Pending machine caller task failed rest system next ∨ Returned machine caller task failed rest system next := by
  have hnext := Proceeds.move hsecond hmoves
  have hsoundLooked := hfirst.sound hsound
  rcases hmoves.evaluates (hsecond.sound hsoundLooked) hat with hstill | ⟨later, reply, hreact, hback⟩
  · exact .inl (.looked hfirst hlooked hnext (hsettled ▸ .done) hstill)
  · have hreply : reply = [] := by
      rcases hreact with hreact | hreact <;> cases hreact
      rfl
    rw [hreply] at hback
    obtain ⟨outcome, houtcome⟩ := Option.isSome_iff_exists.1 hsettled
    have hreturned : next.Evaluates caller (returning failed rest none) := hback
    refine .inr (.intro hfirst hlooked hnext hreturned .start
      ((hnext.lasts hsoundLooked).outcome? houtcome) (fun _ => rfl) fun hunsettled => ?_)
    rw [hsettled] at hunsettled
    cases hunsettled

/-- A call that waits for the task returns once it has settled. -/
theorem Pending.await (hfirst : Proceeds machine system first looked)
    (hlooked : looked.Evaluates caller (cancelOne task failed rest)) (hsecond : Proceeds machine looked second middle)
    (hmoves : Moves machine middle acts next) (hsound : system.Sound) (hunsettled : looked.host.isSettled task = false)
    (hat : middle.Evaluates caller (awaiting failed rest [task])) :
    Pending machine caller task failed rest system next ∨ Returned machine caller task failed rest system next := by
  have hnext := Proceeds.move hsecond hmoves
  have hsoundLooked := hfirst.sound hsound
  have hsoundMiddle := hsecond.sound hsoundLooked
  rcases hmoves.evaluates hsoundMiddle hat with hstill | ⟨later, reply, hreact, hback⟩
  · exact .inl (.looked hfirst hlooked hnext (hunsettled ▸ .awaiting) hstill)
  · have hreply : middle.host.allOutcomes? [task] = some reply := by
      rcases hreact with hreact | hreact
      · exact Action.holds_of_react hreact
      · simp only [Host.react, Host.look] at hreact
        split at hreact <;> cases hreact
    simp only [Host.allOutcomes?] at hreply
    cases houtcome : middle.host.outcome? task with
    | none => simp [houtcome] at hreply
    | some outcome =>
        rw [houtcome] at hreply
        obtain rfl : [outcome] = reply := Option.some.inj hreply
        have hanswer : ([outcome].filterMap cancelFailure).head? = cancelFailure outcome := by
          cases hfailure : cancelFailure outcome <;> simp [hfailure]
        rw [hanswer] at hback
        refine .inr (.intro hfirst hlooked hnext hback .start ((hmoves.later hsoundMiddle).outcome? houtcome)
          (fun hsettled => ?_) fun _ => cancelAnswer outcome)
        rw [hunsettled] at hsettled
        cases hsettled

end Progress

/-- A call goes on, or it has returned with the task settled, whatever the other processes do. -/
theorem pending_or_returned {machine : Machine} {caller : TaskId} {system later : System} {more : Trace}
    (hproceeds : Proceeds machine system more later) (hsound : system.Sound)
    (hcall : system.Evaluates caller (cancelOne task failed rest)) :
    Pending machine caller task failed rest system later ∨ Returned machine caller task failed rest system later := by
  induction hproceeds with
  | start => exact .inl (.looking hcall)
  | @move trace acts middle next before hmoves ih =>
      have hsoundMiddle := before.sound hsound
      rcases ih with hpending | ⟨hfirst, hlooked, hsecond, hback, hthird, hsettled, hover, hanswer⟩
      · cases hpending with
        | looking hat => exact .inl (.look before hmoves hsoundMiddle hat)
        | @looked first second looked body hfirst hlooked hsecond hstage hat =>
            have hnext := Proceeds.move hsecond hmoves
            generalize hsettled : looked.host.isSettled task = settled at hstage
            cases hstage with
            | done => exact Pending.done hfirst hlooked hsecond hmoves hsound hsettled hat
            | awaiting => exact Pending.await hfirst hlooked hsecond hmoves hsound hsettled hat
            | announcing =>
                rcases hmoves.evaluates hsoundMiddle hat with hstill | ⟨_, reply, -, hafter⟩
                · exact .inl (.looked hfirst hlooked hnext (hsettled ▸ .announcing) hstill)
                · exact .inl (.looked hfirst hlooked hnext (hsettled ▸ .asking) hafter)
            | asking =>
                rcases hmoves.evaluates hsoundMiddle hat with hstill | ⟨_, reply, -, hafter⟩
                · exact .inl (.looked hfirst hlooked hnext (hsettled ▸ .asking) hstill)
                · exact .inl (.looked hfirst hlooked hnext (hsettled ▸ .awaiting) hafter)
      · exact .inr (.intro hfirst hlooked hsecond hback (.move hthird hmoves) hsettled hover hanswer)

end Concurrent
end EffectMachine
