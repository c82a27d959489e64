import EffectMachine.Proofs.Middleware.Unwinding
import EffectMachine.Proofs.Scheduling.Waiters

/-!
# Steps behind an observer

A step of a run behind an observer is one that the other run takes, too, or one of the observer, which the other run takes
no part in.  The latter come to an end.

* `Observer.Spared` says that a step does not depend on the observer.
* `Observer.Together` says that two runs take a step together.
* `Observer.Leads.step` is the main statement.
-/

namespace EffectMachine

/-- Taking note of a cancellation, the top frame may be given up later; nothing else becomes of it. -/
theorem Run.exists_observeCancellation (run : Run) : ∃ cancellation,
    run.observeCancellation.stack.top = { run.stack.top with cancellation } := by
  unfold observeCancellation
  split
  · exact run.stack.top.exists_markCanceled
  · exact ⟨_, rfl⟩

theorem Run.below_observeCancellation {run : Run} (habove : run.stack.below ≠ []) :
    run.observeCancellation.stack.below ≠ [] := by
  unfold observeCancellation
  split
  · exact fun hnone => habove (List.map_eq_nil_iff.1 hnone)
  · exact habove

/-- A frame that has finished is taken off. -/
theorem Machine.step_of_finished (machine : Machine) {run : Run} (calm : run.Calm) (hfinished : run.stack.top.isFinished = true) :
    machine.step run = Machine.moved (machine.unwind run) ∧ machine.stepActs run = machine.unwindActs run := by
  have hprogress : run.stack.top.progress = .finished := by
    unfold Frame.isFinished at hfinished
    split at hfinished
    · assumption
    · cases hfinished
  unfold Machine.step Machine.stepActs
  simp only [hprogress]
  unfold Machine.turn Machine.turnActs
  simp only [calm.observeCancellation_eq, calm.noticeActs_eq, hfinished]
  exact ⟨rfl, rfl⟩

namespace Observer

open Middleware Machine

/-- No cancellation is noted while an observer has frames. -/
def Calm (observer : Observer) (watched : Run) : Prop :=
  (∀ frame ∈ watched.stack.top :: watched.stack.below, owns observer.kinds frame = false) ∨ watched.Calm

/-- A step of a run does not depend on an observer: no cancellation is noted while the observer has frames, what the
observer delegates is let through, and the core rules that are applied spare the observer. -/
structure Spared (observer : Observer) (fronted : Machine) (watched : Run) : Prop where
  calm : observer.Calm watched
  rulings : delegates observer.kinds (.task watched.stack) = false →
    ∀ ruling ∈ fronted.stepRulings watched, ruling.spares observer.kinds = true
  delegation : delegates observer.kinds (.task watched.stack) = true → ∃ ruling rulings,
    fronted.stepRulings watched = ruling :: rulings ∧ ruling.run.host.nextIdentity = watched.host.nextIdentity ∧
      ∀ ruling ∈ rulings, ruling.spares observer.kinds = true

/-- Two runs take a step together, one of them behind an observer.  Where they may have to wait, the observer is not at
work afterwards. -/
inductive Together (observer : Observer) (machine : Machine) : Bool → Stepped Stack → Stepped Stack → List Service → Prop
  | moved {watched run : Run} {ahead : List Service} {place : Rank} (hleads : observer.Leads machine watched run ahead place) :
      Together observer machine false (moved watched) (moved run) ahead
  | replied {mayWait : Bool} {watched stack : Stack} {watchedHost host : Host} (hcovers : observer.Covers watched stack)
      (hrests : observer.Rests watched) (halike : observer.Alike watchedHost host) :
      Together observer machine mayWait (.moved watched watchedHost) (.moved stack host) []
  | gaveWay {mayWait : Bool} {watched stack : Stack} {watchedHost host : Host} (hcovers : observer.Covers watched stack)
      (hrests : observer.Rests watched) (halike : observer.Alike watchedHost host) :
      Together observer machine mayWait (.gaveWay watched watchedHost) (.gaveWay stack host) []
  | waits {mayWait : Bool} {watched stack : Stack} {watchedHost host : Host} (hcovers : observer.Covers watched stack)
      (hrests : observer.Rests watched) (halike : observer.Alike watchedHost host) (occasions : List Occasion) :
      Together observer machine mayWait (.waits watched watchedHost occasions) (.waits stack host occasions) []

variable {observer : Observer} {fronted machine : Machine} {watched run : Run}

/-! ## Cancellation -/

section Observe

variable (hcovers : observer.Covers watched.stack run.stack) (halike : observer.Alike watched.host run.host)

include hcovers halike

theorem calm_of_covers (calm : watched.Calm) : run.Calm := by
  unfold Run.Calm at calm ⊢
  rw [hcovers.canceled, hcovers.signal, funext halike.isCanceled]
  exact calm

/-- A cancellation is noted on both stacks, or on none. -/
theorem observe (calm : observer.Calm watched) :
    observer.Covers watched.observeCancellation.stack run.observeCancellation.stack ∧
      observer.Alike watched.observeCancellation.host run.observeCancellation.host := by
  rcases calm with hnone | calm
  · unfold Run.observeCancellation
    rw [hcovers.canceled, hcovers.signal, funext halike.isCanceled]
    split
    · exact ⟨hcovers.markCanceled hnone, halike.emit _ _⟩
    · exact ⟨hcovers, halike⟩
  · rw [calm.observeCancellation_eq, (calm_of_covers hcovers halike calm).observeCancellation_eq]
    exact ⟨hcovers, halike⟩

end Observe

@[simp] theorem services_noticeActs (kinds : List String) (run : Run) : services kinds (noticeActs run) = [] := by
  unfold noticeActs
  split <;> rfl

/-! ## Steps that both runs take -/

theorem Comes.together {watchedActs acts : List Act} {bound : Rank}
    (comes : observer.Comes machine watched run watchedActs acts bound) :
    ∃ ahead, observer.Together machine false (moved watched) (moved run) ahead ∧
      services observer.kinds watchedActs ++ ahead = services [] acts := by
  obtain ⟨ahead, place, hleads, hservices, -⟩ := comes
  exact ⟨ahead, .moved hleads, hservices⟩

/-- Two runs that go on at once and have come to rest. -/
theorem together_of_rests {watched stack : Stack} {watchedHost host : Host} (hcovers : observer.Covers watched stack)
    (hrests : observer.Rests watched) (halike : observer.Alike watchedHost host) {watchedActs acts : List Act}
    (hservices : services observer.kinds watchedActs = services [] acts) :
    ∃ ahead, observer.Together machine false (.moved watched watchedHost) (.moved stack host) ahead ∧
      services observer.kinds watchedActs ++ ahead = services [] acts :=
  ⟨[], .replied hcovers hrests halike, by rw [hservices, List.append_nil]⟩

section Rests

variable (hfronts : observer.Fronts fronted machine) (hcovers : observer.Covers watched.stack run.stack)
  (halike : observer.Alike watched.host run.host) (hother : owns observer.kinds watched.stack.top = false)
  (habove : watched.stack.below ≠ [])

include hfronts hcovers halike hother habove

/-- The top frames end. -/
theorem unwind_finished (outcome : Outcome)
    (hspares : ∀ ruling ∈ fronted.unwindRulings (finished outcome watched), ruling.spares observer.kinds = true) :
    ∃ ahead,
      observer.Together machine false (moved (fronted.unwind (finished outcome watched)))
        (moved (machine.unwind (finished outcome run))) ahead ∧
      services observer.kinds (fronted.unwindActs (finished outcome watched)) ++ ahead =
        services [] (machine.unwindActs (finished outcome run)) := by
  have hended : observer.Covers (finished outcome watched).stack (finished outcome run).stack :=
    hcovers.withTop (fun frame => frame.finish outcome) rfl (fun hbelow => absurd hbelow habove) hother rfl
  have hanswerable : run.stack.top.answerable = watched.stack.top.answerable := by
    rw [(hcovers.top_and_below hother).1]
    rfl
  have hclosed : observer.Alike (finished outcome watched).host (finished outcome run).host := by
    unfold finished
    rw [hanswerable]
    exact halike.close _
  exact (unwind hfronts hended hclosed hother rfl hspares).together

/-- The computations of the top frames end. -/
theorem complete_together (outcome : Outcome)
    (hspares : ∀ ruling ∈ fronted.completeRulings outcome watched, ruling.spares observer.kinds = true) :
    ∃ ahead, observer.Together machine false (moved (fronted.complete outcome watched)) (moved (machine.complete outcome run)) ahead ∧
      services observer.kinds (fronted.completeActs outcome watched) ++ ahead =
        services [] (machine.completeActs outcome run) := by
  cases outcome with
  | ok value => exact unwind_finished hfronts hcovers halike hother habove (.ok value) hspares
  | error error =>
      have hreported : observer.Covers (watched.emit (.computationFailed error watched.stack.labels)).stack
          (run.emit (.computationFailed error run.stack.labels)).stack := hcovers
      exact unwind_finished hfronts hreported (halike.emit _ _) hother habove (.error error) hspares

end Rests

section Rests

variable (hfronts : observer.Fronts fronted machine) (hcovers : observer.Covers watched.stack run.stack)
  (hrests : observer.Rests watched.stack) (halike : observer.Alike watched.host run.host)
  (habove : watched.stack.below ≠ [])

include hcovers hrests halike habove

/-- The top frames get a body to go on with. -/
theorem resume_together (body : Body) : ∃ ahead,
    observer.Together machine false (moved (resumeTop watched body)) (moved (resumeTop run body)) ahead ∧
      services observer.kinds [.resumed watched.stack.top.result] ++ ahead = services [] [.resumed run.stack.top.result] := by
  have hresumed : observer.Covers (resumeTop watched body).stack (resumeTop run body).stack :=
    hcovers.withTop (fun frame => { frame with progress := .running body, result := .ok .null }) rfl
      (fun hbelow => absurd hbelow habove) hrests.other rfl
  have hrunning : observer.Rests (resumeTop watched body).stack := ⟨hrests.other, fun _ _ => rfl⟩
  exact together_of_rests hresumed hrunning halike rfl

/-- The computations of the top frames do something by themselves. -/
theorem act_together {action : Action} {resume : action.Reply → Body}
    (hrunning : watched.stack.top.progress = .running (.act action resume)) : ∃ ahead,
    observer.Together machine action.mayWait (act action resume watched) (act action resume run) ahead ∧
      services observer.kinds (actActs action watched) ++ ahead = services [] (actActs action run) := by
  have hreplied (reply : action.Reply) : observer.Covers (replied watched.stack action resume reply)
      (replied run.stack action resume reply) :=
    hcovers.withTop (fun frame =>
      { frame with progress := .running (resume reply), answerable := frame.answerable ++ action.acquired reply }) rfl
      (fun hbelow => absurd hbelow habove) hrests.other rfl
  have hresult := hrests.running _ hrunning
  have hreacts := halike.react action
  unfold act actActs
  revert hreacts
  generalize watched.host.react action = watchedReaction
  generalize run.host.react action = reaction
  intro hreacts
  cases hreacts with
  | @reply watchedLater later hlater reply =>
      exact ⟨[], .replied (hreplied reply) ⟨hrests.other, fun _ _ => hresult⟩ hlater, rfl⟩
  | giveWay hlater reply =>
      exact ⟨[], .gaveWay (hreplied reply) ⟨hrests.other, fun _ _ => hresult⟩ hlater, rfl⟩
  | wait hlater occasions => exact ⟨[], .waits hcovers hrests hlater occasions, rfl⟩

include hfronts

/-- The computations of the top frames perform an effect. -/
theorem suspend_together {effect : Effect} {resume : Outcome → Body}
    (hrunning : watched.stack.top.progress = .running (.perform effect resume))
    (calm : observer.Calm watched)
    (hspares : ∀ ruling ∈ fronted.suspendRulings effect resume watched, ruling.spares observer.kinds = true) : ∃ ahead,
    observer.Together machine false (moved (fronted.suspend effect resume watched)) (moved (machine.suspend effect resume run)) ahead ∧
      services observer.kinds (fronted.suspendActs effect resume watched) ++ ahead =
        services [] (machine.suspendActs effect resume run) := by
  have hasking : observer.Covers (Machine.asking watched resume).stack (Machine.asking run resume).stack :=
    hcovers.withTop (fun frame => { frame with progress := .suspended resume }) rfl (fun hbelow => absurd hbelow habove)
      hrests.other rfl
  have hcalm : observer.Calm (Machine.asking watched resume) :=
    calm.imp_left fun hnone => List.forall_mem_cons.2 ⟨hrests.other, (List.forall_mem_cons.1 hnone).2⟩
  obtain ⟨hcovered, hlike⟩ := observe hasking halike hcalm
  obtain ⟨cancellation, htop⟩ := (Machine.asking watched resume).exists_observeCancellation
  have hother : owns observer.kinds (Machine.asking watched resume).observeCancellation.stack.top = false := by
    rw [htop]
    exact hrests.other
  have hidle (body : Body) : (Machine.asking watched resume).observeCancellation.stack.top.progress ≠ .running body := by
    rw [htop]
    exact fun hrunning => nomatch hrunning
  -- whether the effect is discarded depends on the top frame, which is the same on both stacks
  have hdue : (Machine.asking run resume).observeCancellation.stack.top.cancellation =
      (Machine.asking watched resume).observeCancellation.stack.top.cancellation := by
    rw [(hcovered.top_and_below hother).1]
    rfl
  have hresult := hrests.running _ hrunning
  have hpoised : observer.Poised (Machine.asking watched resume).observeCancellation
      (Machine.asking run resume).observeCancellation := by
    refine ⟨hcovered, hlike, fun howns => absurd (hother.symm.trans howns) Bool.false_ne_true, fun _ => ?_, hidle⟩
    rw [htop]
    exact hresult
  have hsuspended (machine : Machine) (run : Run) : machine.suspend effect resume run =
        (if (Machine.asking run resume).observeCancellation.stack.top.cancellation = .due then
          (Machine.asking run resume).observeCancellation.emit (.effectDiscarded effect.kind)
        else machine.handle effect (Machine.asking run resume).observeCancellation) ∧
      machine.suspendActs effect resume run = .performed effect :: noticeActs (Machine.asking run resume) ++
        (if (Machine.asking run resume).observeCancellation.stack.top.cancellation = .due then []
        else machine.handleActs effect (Machine.asking run resume).observeCancellation) := ⟨rfl, rfl⟩
  have hperformed (kinds : List String) (run : Run) : services kinds (.performed effect :: noticeActs run) = [] :=
    services_noticeActs kinds run
  unfold suspendRulings at hspares
  rw [(hsuspended fronted watched).1, (hsuspended fronted watched).2, (hsuspended machine run).1,
    (hsuspended machine run).2, hdue]
  split
  · refine together_of_rests hcovered ⟨hother, fun body hbody => absurd hbody (hidle body)⟩ (hlike.emit _ _) ?_
    simp only [List.append_nil, hperformed]
  · rename_i hkept
    rw [if_neg hkept] at hspares
    exact ((hpoised.handle hfronts effect hspares).after _ _ (by simp only [hperformed])).together

/-- The top frames are resumed, given up or taken off. -/
theorem turn_together (hidle : ∀ body, watched.stack.top.progress ≠ .running body)
    (calm : observer.Calm watched)
    (hspares : ∀ ruling ∈ fronted.turnRulings watched, ruling.spares observer.kinds = true) : ∃ ahead,
    observer.Together machine false (moved (fronted.turn watched)) (moved (machine.turn run)) ahead ∧
      services observer.kinds (fronted.turnActs watched) ++ ahead = services [] (machine.turnActs run) := by
  obtain ⟨hcovered, hlike⟩ := observe hcovers halike calm
  have habove := Run.below_observeCancellation habove
  obtain ⟨cancellation, htop⟩ := watched.exists_observeCancellation
  have hother : owns observer.kinds watched.observeCancellation.stack.top = false := by
    rw [htop]
    exact hrests.other
  have hidle (body : Body) : watched.observeCancellation.stack.top.progress ≠ .running body := by
    rw [htop]
    exact hidle body
  unfold turnRulings at hspares
  unfold turn turnActs
  simp only [services_append, services_noticeActs, List.nil_append]
  revert hspares hcovered hlike hother hidle habove
  generalize watched.observeCancellation = watched
  generalize run.observeCancellation = run
  intro hspares hcovers halike habove hother hidle
  -- all that a turn depends on is the same of both top frames
  have htop := (hcovers.top_and_below hother).1
  have hfinished : run.stack.top.isFinished = watched.stack.top.isFinished := by rw [htop]; rfl
  have hcancellation : run.stack.top.cancellation = watched.stack.top.cancellation := by rw [htop]; rfl
  have hprogress : run.stack.top.progress = watched.stack.top.progress := by rw [htop]; rfl
  have hresult : run.stack.top.result = watched.stack.top.result := by rw [htop]; rfl
  rw [hfinished, hcancellation, hprogress, hresult]
  have hrests : observer.Rests watched.stack := ⟨hother, fun body hrunning => absurd hrunning (hidle body)⟩
  split
  · rename_i hended
    simp only [if_pos hended] at hspares
    exact (unwind hfronts hcovers halike hother hended hspares).together
  · rename_i hgoing
    simp only [if_neg hgoing] at hspares
    split
    · rename_i hdue
      simp only [if_pos hdue] at hspares
      have happlied : observer.Covers (watched.withTop fun frame => { frame with cancellation := .applied }).stack
          (run.withTop fun frame => { frame with cancellation := .applied }).stack :=
        hcovers.withTop (fun frame => { frame with cancellation := .applied }) rfl (fun _ => rfl) hother rfl
      exact unwind_finished hfronts happlied halike hother habove (.ok .null) hspares
    · rename_i hkept
      simp only [if_neg hkept] at hspares
      cases hwatched : watched.stack.top.progress with
      | fresh body => exact resume_together hcovers hrests halike habove body
      | suspended resume => exact resume_together hcovers hrests halike habove (resume watched.stack.top.result)
      | running body => exact absurd hwatched (hidle body)
      | root | finished =>
          simp only [hwatched] at hspares
          exact unwind_finished hfronts hcovers halike hother habove (.ok .null) hspares

/-- Where the observer is not at work, both runs take a step. -/
theorem step_of_rests (hspared : observer.Spared fronted watched) : ∃ ahead,
    observer.Together machine watched.stack.top.progress.mayWait (fronted.step watched) (machine.step run) ahead ∧
      services observer.kinds (fronted.stepActs watched) ++ ahead = services [] (machine.stepActs run) := by
  have hprogress : run.stack.top.progress = watched.stack.top.progress := by
    rw [(hcovers.top_and_below hrests.other).1]
    rfl
  have hrulings := hspared.rulings (by simp [delegates, Activity.stack?, hrests.other])
  unfold step stepActs
  unfold stepRulings at hrulings
  rw [hprogress]
  cases hwatched : watched.stack.top.progress with
  | running body =>
      rw [hwatched] at hrulings
      cases body with
      | done outcome => exact complete_together hfronts hcovers halike hrests.other habove outcome hrulings
      | perform effect resume =>
          exact suspend_together hfronts hcovers hrests halike habove hwatched hspared.calm hrulings
      | act action resume => exact act_together hcovers hrests halike habove hwatched
  | root | fresh | suspended | finished =>
      rw [hwatched] at hrulings
      exact turn_together hfronts hcovers hrests halike habove (by simp [hwatched]) hspared.calm hrulings

end Rests

/-! ## Steps of the observer -/

/-- A run behind an observer goes on at once, while the run without it stays where it is, and comes closer to it. -/
def Approaches (observer : Observer) (fronted machine : Machine) (watched run : Run) (owed : List Service) (place : Rank) :
    Prop :=
  ∃ next ahead later, fronted.step watched = moved next ∧ observer.Leads machine next run ahead later ∧
    services observer.kinds (fronted.stepActs watched) ++ ahead = owed ∧ later < place

/-- A frame of the observer goes on, whatever it has got. -/
theorem Own.goOn (hown : observer.Own watched.stack.top) (hcovers : observer.Covers watched.stack run.stack)
    (progress : Progress) (result : Outcome) :
    observer.Covers (watched.stack.withTop fun frame => { frame with progress, result }) run.stack ∧
      observer.Own (watched.stack.withTop fun frame => { frame with progress, result }).top :=
  ⟨hcovers.withTop_own (fun frame => { frame with progress, result }) rfl hown.owns,
    hown.owns, hown.defers, hown.cancellation, hown.answerable⟩

/-- The observer writes something down. -/
theorem step_note (observer : Observer) (fronted : Machine) {note : Note} {rest : Body}
    (hrunning : watched.stack.top.progress = .running (note.before rest)) : ∃ later : Host,
    fronted.step watched = .moved (watched.stack.withTop fun frame => { frame with progress := .running rest }) later ∧
      services observer.kinds (fronted.stepActs watched) = [] ∧
      ∀ host, observer.Alike watched.host host → observer.Alike later host := by
  have hreported {reply : note.action.Reply} {later : Host} (hacquired : note.action.acquired reply = [])
      (hreact : watched.host.react note.action = .reply later reply)
      (halike : ∀ host, observer.Alike watched.host host → observer.Alike later host) : ∃ later : Host,
      fronted.step watched = .moved (watched.stack.withTop fun frame => { frame with progress := .running rest }) later ∧
        services observer.kinds (fronted.stepActs watched) = [] ∧
        ∀ host, observer.Alike watched.host host → observer.Alike later host := by
    obtain ⟨hstep, hacts⟩ := fronted.step_reply hrunning hreact
    refine ⟨later, ?_, by rw [hacts]; rfl, halike⟩
    rw [hstep]
    simp only [replied, hacquired, List.append_nil]
  cases note with
  | event reported => exact hreported rfl rfl fun host halike => halike.emit_left reported
  | count meter tally => exact hreported rfl rfl fun host halike => { halike with }

section Own

variable (hcovers : observer.Covers watched.stack run.stack) (halike : observer.Alike watched.host run.host)
  (hown : observer.Own watched.stack.top) (calm : watched.Calm)

include hcovers halike hown calm

/-- The observer delegates the operation, which the other run has dispatched. -/
theorem delegate_approaches (hfronts : observer.Fronts fronted machine) {operation : Effect} {position : Nat}
    (htag : watched.stack.top.tag = some ⟨operation.kind, position⟩) (hposition : position < observer.kinds.count operation.kind)
    (hresult : watched.stack.top.result = .ok .null)
    (hrunning : watched.stack.top.progress = .running (.perform (.next operation false) (observer.resuming operation)))
    {ruling : Ruling} {rulings : List Ruling} (hrulings : fronted.stepRulings watched = ruling :: rulings)
    (hidentity : ruling.run.host.nextIdentity = watched.host.nextIdentity)
    (hspares : ∀ ruling ∈ rulings, ruling.spares observer.kinds = true) :
    observer.Approaches fronted machine watched (settled (machine.dispatch operation 0 run))
      (services [] (machine.dispatchActs operation 0 run))
      (rank 0 (watched.stack.height + 1 + 2 * observer.reach operation position) 0) := by
  have hkept : watched.stack.top.cancellation ≠ .due := by simp [hown.cancellation]
  obtain ⟨hstep, hacts⟩ := fronted.step_perform calm hrunning hkept
  -- between performing the delegation and handling it, no cancellation is noted
  have hasks : fronted.stepRulings watched = fronted.handleRulings (.next operation false)
      (Machine.asking watched (observer.resuming operation)) := by
    have hobserve : (Machine.asking watched (observer.resuming operation)).observeCancellation =
        Machine.asking watched (observer.resuming operation) := Run.Calm.observeCancellation_eq calm
    unfold stepRulings
    simp only [hrunning]
    unfold suspendRulings
    rw [hobserve]
    exact if_neg hkept
  rw [hasks] at hrulings
  have hasked : (Machine.asking watched (observer.resuming operation)).stack.top.tag = some ⟨operation.kind, position⟩ := htag
  obtain ⟨later, hquiet, rfl, rfl, hhandle, failure, hhandleActs⟩ := fronted.exists_delegation hasked hrulings
  have hpoised : observer.Poised
      { Machine.asking watched (observer.resuming operation) with host := ruling.run.host } run := by
    refine ⟨hcovers.withTop_own (fun frame => { frame with progress := .suspended (observer.resuming operation) }) rfl
      hown.owns, halike.quiet_left hquiet hidentity, fun _ => ?_, fun _ => hresult, fun body hbody => nomatch hbody⟩
    exact ⟨⟨hown.owns, hown.defers, hown.cancellation, hown.answerable⟩, operation, rfl⟩
  obtain ⟨ahead, place, hleads, hservices, hplace⟩ :=
    observer.dispatches hfronts operation (position + 1) _ run hpoised hspares
  rw [Nat.sub_eq_zero_of_le hposition] at hleads hservices
  refine ⟨_, ahead, place, by rw [hstep, hhandle], hleads, ?_, hplace.trans_le (rank_le ?_ 0)⟩
  · rw [hacts, hhandleActs, ← hservices]
    show services observer.kinds (_ ++ failureActs failure) ++ ahead = _
    rw [services_append, services_failureActs, List.append_nil]
  · show watched.stack.height + 3 + _ ≤ _
    unfold reach
    omega

/-- The observer is about to delegate an operation. -/
theorem opens_approaches (hfronts : observer.Fronts fronted machine) {operation : Effect} {position left : Nat}
    (htag : watched.stack.top.tag = some ⟨operation.kind, position⟩) (hposition : position < observer.kinds.count operation.kind)
    (hresult : watched.stack.top.result = .ok .null) (hopening : observer.Opening operation watched.stack.top left)
    (hdelegation : delegates observer.kinds (.task watched.stack) = true → ∃ ruling rulings,
      fronted.stepRulings watched = ruling :: rulings ∧ ruling.run.host.nextIdentity = watched.host.nextIdentity ∧
        ∀ ruling ∈ rulings, ruling.spares observer.kinds = true) :
    observer.Approaches fronted machine watched (settled (machine.dispatch operation 0 run))
      (services [] (machine.dispatchActs operation 0 run))
      (rank 0 (watched.stack.height + 1 + 2 * observer.reach operation position) left) := by
  have hkept : watched.stack.top.cancellation ≠ .due := by simp [hown.cancellation]
  cases hopening with
  | fresh hfresh =>
      obtain ⟨hstep, hacts⟩ := fronted.step_fresh calm hfresh hkept
      obtain ⟨hresumed, hstill⟩ := hown.goOn hcovers
        (.running (observer.delegating operation (observer.opening operation))) (.ok .null)
      refine ⟨resumeTop watched _, _, _, hstep, .opens hresumed halike hstill htag hposition rfl (.noting _ rfl), ?_, ?_⟩
      · rw [hacts]
        rfl
      · exact rank_lt.2 (.inr ⟨rfl, .inr ⟨rfl, Nat.lt_succ_self _⟩⟩)
  | noting notes hrunning =>
      cases notes with
      | cons note notes =>
          obtain ⟨later, hstep, hservices, hlater⟩ := step_note observer fronted hrunning
          obtain ⟨hresumed, hstill⟩ := hown.goOn hcovers (.running (observer.delegating operation notes))
            watched.stack.top.result
          refine ⟨⟨_, later⟩, _, _, hstep, .opens hresumed (hlater _ halike) hstill htag hposition hresult (.noting notes rfl),
            ?_, ?_⟩
          · rw [hservices, List.nil_append]
          · exact rank_lt.2 (.inr ⟨rfl, .inr ⟨rfl, Nat.lt_succ_self _⟩⟩)
      | nil =>
          have hdelegates : delegates observer.kinds (.task watched.stack) = true := by
            have hperforms : watched.stack.top.progress =
                .running (.perform (.next operation false) (observer.resuming operation)) := hrunning
            simp [delegates, Activity.stack?, hown.owns, hperforms]
          obtain ⟨ruling, rulings, hrulings, hidentity, hspares⟩ := hdelegation hdelegates
          exact delegate_approaches hcovers halike hown calm hfronts htag hposition hresult hrunning hrulings hidentity hspares

/-- The observer is about to end with an outcome: it goes on by itself, or ends now. -/
theorem closing_step (fronted : Machine) {outcome : Outcome} {left : Nat} (hclosing : observer.Closing outcome watched.stack.top left) :
    (∃ (next : Run) (less : Nat), fronted.step watched = moved next ∧ observer.Covers next.stack run.stack ∧
      observer.Alike next.host run.host ∧ observer.Own next.stack.top ∧ observer.Closing outcome next.stack.top less ∧
      services observer.kinds (fronted.stepActs watched) = [] ∧ next.stack.height = watched.stack.height ∧ less < left) ∨
    watched.stack.top.progress = .running (.done outcome) := by
  cases hclosing with
  | answered operation hsuspended hresult =>
      have hkept : watched.stack.top.cancellation ≠ .due := by simp [hown.cancellation]
      obtain ⟨hstep, hacts⟩ := fronted.step_suspended calm hsuspended hkept
      obtain ⟨hresumed, hstill⟩ := hown.goOn hcovers (.running (observer.resuming operation outcome)) (.ok .null)
      rw [hresult] at hstep
      refine .inl ⟨resumeTop watched _, _, hstep, hresumed, halike, hstill, .noting _ rfl, ?_, rfl, Nat.lt_succ_self _⟩
      rw [hacts]
      rfl
  | noting notes hrunning =>
      cases notes with
      | nil => exact .inr hrunning
      | cons note notes =>
          obtain ⟨later, hstep, hservices, hlater⟩ := step_note observer fronted hrunning
          obtain ⟨hresumed, hstill⟩ := hown.goOn hcovers (.running (concluding notes outcome)) watched.stack.top.result
          exact .inl ⟨⟨_, later⟩, _, hstep, hresumed, hlater _ halike, hstill, .noting notes rfl, hservices, rfl,
            Nat.lt_succ_self _⟩

end Own

/-- A frame of the observer ends and leaves, and so do the frames below it that have finished. -/
theorem exists_end (fronted : Machine) (hown : observer.Own watched.stack.top) {outcome : Outcome}
    (hdone : watched.stack.top.progress = .running (.done outcome)) {parent : Frame} {rest : List Frame}
    (hbelow : watched.stack.below = parent :: rest) : ∃ (events : Array Event) (next : Run),
      next = ({ stack := { watched.stack with top := parent, below := rest }, host := { watched.host with events } } :
        Run).absorbTop outcome ∧
      (parent.isFinished = false → fronted.step watched = moved next ∧
        services observer.kinds (fronted.stepActs watched) = []) ∧
      (parent.isFinished = true → fronted.step watched = moved (fronted.unwind next) ∧
        services observer.kinds (fronted.stepActs watched) = services observer.kinds (fronted.unwindActs next) ∧
        fronted.stepRulings watched = fronted.unwindRulings next) := by
  -- a failure is reported first, which does not count
  obtain ⟨reported, hstep, hacts, hrulings⟩ : ∃ reported,
      fronted.step watched =
        moved (fronted.unwind (finished outcome { watched with host := { watched.host with events := reported } })) ∧
      fronted.stepActs watched = .completed outcome ::
        fronted.unwindActs (finished outcome { watched with host := { watched.host with events := reported } }) ∧
      fronted.stepRulings watched =
        fronted.unwindRulings (finished outcome { watched with host := { watched.host with events := reported } }) := by
    unfold step stepActs stepRulings
    simp only [hdone]
    cases outcome with
    | ok value => exact ⟨watched.host.events, rfl, rfl, rfl⟩
    | error error => exact ⟨(watched.emit (.computationFailed error watched.stack.labels)).host.events, rfl, rfl, rfl⟩
  have hclosed : finished outcome { watched with host := { watched.host with events := reported } } =
      { stack := watched.stack.withTop fun frame => frame.finish outcome
        host := { watched.host with events := reported } } := by
    unfold finished
    simp only [hown.answerable]
    rfl
  rw [hclosed] at hstep hacts hrulings
  generalize hended : ({ stack := watched.stack.withTop fun frame => frame.finish outcome
                         host := { watched.host with events := reported } } : Run) = ended at hstep hacts hrulings
  have hendedBelow : ended.stack.below = parent :: rest := by rw [← hended]; exact hbelow
  have hdefers : ended.stack.top.defers = [] := by rw [← hended]; exact hown.defers
  obtain ⟨events, hstays, hpasses⟩ := fronted.exists_unwind hendedBelow hdefers
  refine ⟨events, leaving ended parent rest events, by rw [← hended]; rfl, fun hgoing => ?_, fun hfinished => ?_⟩
  · obtain ⟨hunwind, hunwindActs, -⟩ := hstays hgoing
    rw [hstep, hacts, hunwind, hunwindActs]
    exact ⟨rfl, rfl⟩
  · obtain ⟨hunwind, hunwindActs, hunwindRulings⟩ := hpasses hfinished
    rw [hstep, hacts, hrulings, hunwind, hunwindActs, hunwindRulings]
    exact ⟨rfl, rfl, rfl⟩

/-- The observer never has to wait. -/
theorem Opening.mayWait {operation : Effect} {frame : Frame} {left : Nat} (hopening : observer.Opening operation frame left) :
    frame.progress.mayWait = false := by
  cases hopening with
  | fresh hprogress =>
      rw [hprogress]
      rfl
  | noting notes hprogress =>
      rw [hprogress]
      cases notes with
      | nil => rfl
      | cons note notes => cases note <;> rfl

theorem Closing.mayWait {outcome : Outcome} {frame : Frame} {left : Nat} (hclosing : observer.Closing outcome frame left) :
    frame.progress.mayWait = false := by
  cases hclosing with
  | answered operation hprogress hresult =>
      rw [hprogress]
      rfl
  | noting notes hprogress =>
      rw [hprogress]
      cases notes with
      | nil => rfl
      | cons note notes => cases note <;> rfl

section Ending

variable (hcovers : observer.Covers watched.stack run.stack) (halike : observer.Alike watched.host run.host)
  (hown : observer.Own watched.stack.top) (calm : watched.Calm) (hfronts : observer.Fronts fronted machine)
  (hspared : observer.Spared fronted watched) {outcome : Outcome} {left : Nat}
  (hclosing : observer.Closing outcome watched.stack.top left) {parent : Frame} {rest : List Frame}
  (hbelow : watched.stack.below = parent :: rest)

include hcovers halike hown calm hfronts hspared hclosing hbelow

/-- The observer is about to end with an outcome that the frame below already has.  If that has finished, it leaves together
with the one on the other stack. -/
theorem closes_step :
    observer.Approaches fronted machine watched (run.absorbTop outcome) [] (rank 0 watched.stack.height left) ∨
    (run.absorbTop outcome).stack.below ≠ [] ∧ (run.absorbTop outcome).stack.top.isFinished = true ∧ ∃ ahead,
      observer.Together machine false (fronted.step watched) (machine.step (run.absorbTop outcome)) ahead ∧
      services observer.kinds (fronted.stepActs watched) ++ ahead = services [] (machine.stepActs (run.absorbTop outcome)) := by
  rcases closing_step hcovers halike hown calm fronted hclosing with
    ⟨next, less, hstep, hcovers, halike, hown, hclosing, hservices, hheight, hless⟩ | hdone
  · refine .inl ⟨next, _, _, hstep, .closes hcovers halike hown hclosing, by rw [hservices, List.nil_append], ?_⟩
    exact rank_lt.2 (.inr ⟨rfl, .inr ⟨hheight, hless⟩⟩)
  · obtain ⟨events, next, hnext, hstays, hpasses⟩ := exists_end fronted hown hdone hbelow
    have hpoised := Poised.of_pop_own hcovers (halike.withEvents events run.host.events) hbelow hown.owns
    cases hparent : parent.isFinished with
    | false =>
        have hheight : watched.stack.height = rest.length + 1 := by simp [Stack.height, hbelow]
        obtain ⟨hstep, hservices⟩ := hstays hparent
        obtain ⟨place, hleads, hplace⟩ := hpoised.absorb machine outcome
        refine .inl ⟨next, _, _, hstep, hnext ▸ hleads, by rw [hservices, List.nil_append], ?_⟩
        rw [hheight]
        exact hplace.trans_le (rank_le_left _ _ _)
    | true =>
        obtain ⟨hstep, hservices, hrulings⟩ := hpasses hparent
        have hother := hpoised.other_of_isFinished hparent
        have hfinished : (run.absorbTop outcome).stack.top.isFinished = true :=
          (Frame.isFinished_absorb _ _).trans (hpoised.isFinished_top hparent)
        have calm := calm_of_covers hcovers halike calm
        obtain ⟨hrun, hacts⟩ := machine.step_of_finished (show (run.absorbTop outcome).Calm from calm) hfinished
        have hspares := hspared.rulings (by simp [delegates, Activity.stack?, hdone])
        rw [hrulings, hnext] at hspares
        refine .inr ⟨fun hnone => ?_, hfinished, ?_⟩
        · exact hpoised.covers.below_ne_nil_of_isFinished hparent ((hpoised.covers.below_eq_nil_iff hother).1 hnone)
        · rw [hstep, hservices, hrun, hacts, hnext]
          exact (hpoised.unwind_absorbTop hfronts hparent outcome hspares).together

/-- The observer is about to end with an outcome, and the frame below has left the other stack with it.  It comes to where
that stack is by itself. -/
theorem passes_approaches (hfinished : run.stack.top.isFinished = true) :
    observer.Approaches fronted machine watched (machine.unwind (run.absorbTop outcome))
      (services [] (machine.unwindActs (run.absorbTop outcome))) (rank 1 watched.stack.height left) := by
  rcases closing_step hcovers halike hown calm fronted hclosing with
    ⟨next, less, hstep, hcovers, halike, hown, hclosing, hservices, hheight, hless⟩ | hdone
  · refine ⟨next, _, _, hstep, .passes hcovers halike hown hclosing hfinished, by rw [hservices, List.nil_append], ?_⟩
    exact rank_lt.2 (.inr ⟨rfl, .inr ⟨hheight, hless⟩⟩)
  · obtain ⟨events, next, hnext, hstays, hpasses⟩ := exists_end fronted hown hdone hbelow
    have hpoised := Poised.of_pop_own hcovers (halike.withEvents events run.host.events) hbelow hown.owns
    cases hparent : parent.isFinished with
    | false =>
        have howns : owns observer.kinds parent = true := hpoised.owns_of_going hparent hfinished
        obtain ⟨hstep, hservices⟩ := hstays hparent
        obtain ⟨left', hleads⟩ := hpoised.passes machine howns hfinished outcome
        refine ⟨next, _, _, hstep, hnext ▸ hleads, by rw [hservices, List.nil_append], ?_⟩
        exact rank_lt.2 (.inr ⟨rfl, .inl (by simp [Stack.height, hbelow])⟩)
    | true =>
        obtain ⟨hstep, hservices, hrulings⟩ := hpasses hparent
        have hspares := hspared.rulings (by simp [delegates, Activity.stack?, hdone])
        rw [hrulings, hnext] at hspares
        obtain ⟨ahead, place, hleads, hsame, hplace⟩ := hpoised.unwind_absorbTop hfronts hparent outcome hspares
        rw [← hnext] at hleads hsame
        refine ⟨_, ahead, place, hstep, hleads, by rw [hservices, hsame], hplace.trans ?_⟩
        exact rank_lt.2 (.inr ⟨rfl, .inl (by simp [Stack.height, hbelow])⟩)

end Ending

/-- A step behind an observer is one of the observer, or one that both runs take. -/
theorem Leads.step (hfronts : observer.Fronts fronted machine) {owed : List Service} {place : Rank}
    (hleads : observer.Leads machine watched run owed place) (habove : watched.stack.below ≠ [])
    (hspared : observer.Spared fronted watched) :
    watched.stack.top.progress.mayWait = false ∧ observer.Approaches fronted machine watched run owed place ∨
    owed = [] ∧ run.stack.below ≠ [] ∧ run.stack.top.progress.mayWait = watched.stack.top.progress.mayWait ∧ ∃ ahead,
      observer.Together machine watched.stack.top.progress.mayWait (fronted.step watched) (machine.step run) ahead ∧
      services observer.kinds (fronted.stepActs watched) ++ ahead = services [] (machine.stepActs run) := by
  -- while the observer has frames, there is nothing to take note of
  have hcalm (hown : observer.Own watched.stack.top) : watched.Calm :=
    hspared.calm.resolve_left fun hnone =>
      Bool.false_ne_true ((hnone _ List.mem_cons_self).symm.trans hown.owns)
  obtain ⟨parent, rest, hbelow⟩ := List.exists_cons_of_ne_nil habove
  cases hleads with
  | rests hcovers hrests halike =>
      refine .inr ⟨rfl, fun hnone => habove ((hcovers.below_eq_nil_iff hrests.other).1 hnone), ?_, ?_⟩
      · rw [(hcovers.top_and_below hrests.other).1]
        rfl
      · exact step_of_rests hfronts hcovers hrests halike habove hspared
  | opens hcovers halike hown htag hposition hresult hopening =>
      exact .inl ⟨hopening.mayWait, opens_approaches hcovers halike hown (hcalm hown) hfronts htag hposition hresult hopening
        hspared.delegation⟩
  | closes hcovers halike hown hclosing =>
      have hgoes := hclosing.mayWait
      rcases closes_step hcovers halike hown (hcalm hown) hfronts hspared hclosing hbelow with
        happroaches | ⟨habove, hfinished, htogether⟩
      · exact .inl ⟨hgoes, happroaches⟩
      · rw [hgoes]
        exact .inr ⟨rfl, habove, Progress.mayWait_of_isFinished hfinished, htogether⟩
  | passes hcovers halike hown hclosing hfinished =>
      exact .inl ⟨hclosing.mayWait,
        passes_approaches hcovers halike hown (hcalm hown) hfronts hspared hclosing hbelow hfinished⟩

end Observer
end EffectMachine
