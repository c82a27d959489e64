import EffectMachine.Proofs.Batch.Plain

/-!
# Courses of the batch plugin

How far a flush and the service of a batched call can have come, by their strides.

* `Batch.Flushing` is where a flush stands: it waits for its turn, it has collected the batch and calls the function,
  or it answers the calls it collected.
* `Batch.Joining` is where the service of a call stands that has enrolled: it launches the flush of the batch that it
  opened, or it waits for its answer.
* `Batch.ShareAt` is what a call gets that stands at some place of its batch, and `Batch.ShareOf` what a call of a
  batch gets.
* `Batch.flushing_of_follows` and `Batch.joining_of_follows` say that every flush and every service stands somewhere
  there.
-/

namespace EffectMachine

/-- A computation is cut short: it goes no further, or it is given up. -/
def Cut (acts : List Act) : Prop :=
  acts = [] ∨ acts = [.givenUp]

namespace Follows

variable {acts : List Act} {last : Progress}

theorem of_fresh {body : Body} (follows : Follows (.fresh body) acts last) :
    Cut acts ∨ ∃ begun rest, acts = .resumed begun :: rest ∧ Follows (.running body) rest last := by
  cases follows with
  | done => exact .inl (.inl rfl)
  | begin rest => exact .inr ⟨_, _, rfl, rest⟩
  | giveUp _ rest => exact .inl (.inr (by rw [rest.of_finished]))

theorem of_act {action : Action} {resume : action.Reply → Body}
    (follows : Follows (.running (.act action resume)) acts last) :
    Cut acts ∨ ∃ reply rest, acts = .acted action reply :: rest ∧ Follows (.running (resume reply)) rest last := by
  cases follows with
  | done => exact .inl (.inl rfl)
  | act rest => exact .inr ⟨_, _, rfl, rest⟩
  | giveUp _ rest => exact .inl (.inr (by rw [rest.of_finished]))

theorem of_perform {effect : Effect} {resume : Outcome → Body}
    (follows : Follows (.running (.perform effect resume)) acts last) :
    Cut acts ∨ (∃ rest, acts = .performed effect :: rest ∧ Cut rest) ∨
      ∃ answer rest, acts = .performed effect :: .resumed answer :: rest ∧
        Follows (.running (resume answer)) rest last := by
  cases follows with
  | done => exact .inl (.inl rfl)
  | giveUp _ rest => exact .inl (.inr (by rw [rest.of_finished]))
  | perform rest =>
      cases rest with
      | done => exact .inr (.inl ⟨[], rfl, .inl rfl⟩)
      | giveUp _ rest => exact .inr (.inl ⟨[.givenUp], by rw [rest.of_finished], .inr rfl⟩)
      | resume rest => exact .inr (.inr ⟨_, _, rfl, rest⟩)

theorem of_done {outcome : Outcome} (follows : Follows (.running (.done outcome)) acts last) :
    Cut acts ∨ acts = [.completed outcome] := by
  cases follows with
  | done => exact .inl (.inl rfl)
  | complete rest => exact .inr (by rw [rest.of_finished])
  | giveUp _ rest => exact .inl (.inr (by rw [rest.of_finished]))

end Follows

/-- A computation that is cut short does nothing but being given up. -/
theorem Cut.eq_givenUp {acts : List Act} (cut : Cut acts) : ∀ act ∈ acts, act = .givenUp := by
  rcases cut with rfl | rfl <;> simp

/-- Whether an act comes before a batch is collected: nothing of it concerns batches. -/
def Act.isPrelude : Act → Bool
  | .resumed _ | .givenUp => true
  | .acted (.emit _) _ | .acted .yieldTurn _ | .acted (.arm _) _ | .acted (.expired _) _ => true
  | _ => false

/-- What a flush does when the function has returned: it gives calls their shares, and it ends. -/
def Act.Replies (shares : List (Slot × Outcome)) : Act → Prop
  | .acted (.answer slot outcome) _ => (slot, outcome) ∈ shares
  | .acted (.emit _) _ | .completed (.ok .null) | .givenUp => True
  | _ => False

theorem Act.Replies.mono {shares more : List (Slot × Outcome)} {act : Act} (hreplies : act.Replies shares)
    (hmore : ∀ share ∈ shares, share ∈ more) : act.Replies more := by
  unfold Act.Replies at hreplies
  split at hreplies
  · exact hmore _ hreplies
  · trivial
  · trivial
  · trivial
  · cases hreplies

theorem Cut.isPrelude {acts : List Act} (cut : Cut acts) : ∀ act ∈ acts, act.isPrelude = true :=
  fun act hmem => by rw [cut.eq_givenUp act hmem]; rfl

theorem Cut.replies {acts : List Act} (cut : Cut acts) (shares : List (Slot × Outcome)) :
    ∀ act ∈ acts, act.Replies shares :=
  fun act hmem => by rw [cut.eq_givenUp act hmem]; trivial

theorem Cut.not_mem {acts : List Act} {act : Act} (cut : Cut acts) (hact : act ≠ .givenUp) : act ∉ acts :=
  fun hmem => hact (cut.eq_givenUp act hmem)

theorem Cut.resumptions_eq {acts : List Act} (cut : Cut acts) : resumptions acts = [] := by
  rcases cut with rfl | rfl <;> rfl

namespace Batch

/-- What a call of a batch gets when the function has returned: its item of the results, or the error that all
get. -/
def shares (function : Function) (calls : List Enrolled) (returned : Outcome) : List (Slot × Outcome) :=
  match resultsFor function calls.length (returned.bind Value.intoList) with
  | .ok results => (calls.map Enrolled.slot).zip (results.map Except.ok)
  | .error error => calls.map fun call => (call.slot, .error error)

/-- The effect by which a flush calls the function, with the arguments of the calls it collected. -/
def invocation (function : Function) (calls : List Enrolled) : Effect :=
  .call function ((calls.map Enrolled.args).map Value.list)

/-- Every call of a batch gets a share. -/
theorem map_fst_shares (function : Function) (calls : List Enrolled) (returned : Outcome) :
    (shares function calls returned).map Prod.fst = calls.map Enrolled.slot := by
  unfold shares
  split
  · rename_i results hresults
    have hlength := (resultsFor_eq_ok_iff.1 hresults).2
    rw [List.map_fst_zip]
    simp [hlength]
  · simp [Function.comp_def]

section Shares

variable {function : Function}

/-- What the call at some place of a batch gets when the function has returned: the item at its place if there is one for
each call, and else an error that all calls of the batch get. -/
inductive ShareAt (function : Function) (calls place : Nat) : Outcome → Outcome → Prop
  | item {results : List Value} {value : Value} (hlength : results.length = calls) (hvalue : results[place]? = some value) :
      ShareAt function calls place (.ok (.list results)) (.ok value)
  | miscounted {results : List Value} (hlength : results.length ≠ calls) :
      ShareAt function calls place (.ok (.list results)) (.error (.type ("batch: " ++ function.name ++ " returned " ++
        toString results.length ++ " results for " ++ toString calls ++ " calls")))
  | unlisted {value : Value} (hvalue : ∀ results, value ≠ .list results) :
      ShareAt function calls place (.ok value) (.error (.type ("expected a list, found " ++ value.kindName)))
  | failed (error : Error) : ShareAt function calls place (.error error) (.error error)

/-- What a call of a batch gets when the function has returned: the share at its place. -/
inductive ShareOf (function : Function) (calls : List Enrolled) (call : Enrolled) (returned outcome : Outcome) : Prop
  | intro (place : Nat) (hcall : calls[place]? = some call) (hshare : ShareAt function calls.length place returned outcome)

/-- The share of a call is what stands at its place. -/
theorem shareAt_of_mem_shares {calls : List Enrolled} {returned outcome : Outcome} {slot : Slot}
    (hshare : (slot, outcome) ∈ shares function calls returned) :
    ∃ place call, calls[place]? = some call ∧ call.slot = slot ∧ ShareAt function calls.length place returned outcome := by
  have hall {error : Error} (hmem : (slot, outcome) ∈ calls.map fun call => (call.slot, Except.error error))
      (hfails : ∀ place, ShareAt function calls.length place returned (.error error)) :
      ∃ place call, calls[place]? = some call ∧ call.slot = slot ∧ ShareAt function calls.length place returned outcome := by
    obtain ⟨call, hcall, hsame⟩ := List.mem_map.1 hmem
    obtain ⟨place, hplace⟩ := List.mem_iff_getElem?.1 hcall
    cases hsame
    exact ⟨place, call, hplace, rfl, hfails place⟩
  cases returned with
  | error error => exact hall hshare fun place => .failed error
  | ok value =>
      by_cases hlist : ∃ results, value = .list results
      · obtain ⟨results, rfl⟩ := hlist
        by_cases hlength : results.length = calls.length
        · have hzip : (slot, outcome) ∈ (calls.map Enrolled.slot).zip (results.map Except.ok) := by
            simpa [shares, resultsFor, Except.bind, Value.intoList, hlength] using hshare
          obtain ⟨place, hplace⟩ := List.mem_iff_getElem?.1 hzip
          obtain ⟨hslot, hvalue⟩ := List.getElem?_zip_eq_some.1 hplace
          obtain ⟨call, hcall, rfl⟩ := Option.map_eq_some_iff.1 (List.getElem?_map ▸ hslot)
          obtain ⟨value, hresult, rfl⟩ := Option.map_eq_some_iff.1 (List.getElem?_map ▸ hvalue)
          exact ⟨place, call, hcall, rfl, .item hlength hresult⟩
        · refine hall ?_ fun place => .miscounted hlength
          simpa [shares, resultsFor, Except.bind, Value.intoList, hlength] using hshare
      · have hvalue : ∀ results, value ≠ .list results := fun results hsame => hlist ⟨results, hsame⟩
        refine hall ?_ fun place => .unlisted hvalue
        have hnone : value.intoList = .error (.type ("expected a list, found " ++ value.kindName)) := by
          cases value with
          | list results => exact absurd rfl (hvalue results)
          | _ => rfl
        simpa [shares, resultsFor, Except.bind, hnone] using hshare

/-- If the slots of a batch are all different, what is given to the slot of a call is its share. -/
theorem shareOf_of_mem_shares {calls : List Enrolled} {call : Enrolled} {returned outcome : Outcome}
    (hnodup : (calls.map Enrolled.slot).Nodup) (hcall : call ∈ calls)
    (hshare : (call.slot, outcome) ∈ shares function calls returned) : ShareOf function calls call returned outcome := by
  obtain ⟨place, other, hplace, hslot, hshare⟩ := shareAt_of_mem_shares hshare
  obtain ⟨index, hindex⟩ := List.mem_iff_getElem?.1 hcall
  have hfirst : (calls.map Enrolled.slot)[place]? = some call.slot := by simp [hplace, hslot]
  have hsecond : (calls.map Enrolled.slot)[index]? = some call.slot := by simp [hindex]
  obtain rfl : place = index :=
    (List.getElem?_inj (List.getElem?_eq_some_iff.1 hfirst).1 hnodup).1 (hfirst.trans hsecond.symm)
  exact ⟨place, hindex, hshare⟩

end Shares

/-- Where a flush stands, by its strides. -/
inductive Flushing (group : BatchGroup) (function : Function) : List Act → Prop
  /-- It waits for its turn. -/
  | waiting {acts : List Act} (hprelude : ∀ act ∈ acts, act.isPrelude = true) : Flushing group function acts
  /-- It has collected the batch and calls the function. -/
  | calling {before after : List Act} (calls : List Enrolled)
      (hprelude : ∀ act ∈ before, act.isPrelude = true)
      (hasking : ∀ act ∈ after, act.isPrelude = true ∨ act = .performed (invocation function calls))
      (hunanswered : resumptions after = []) :
      Flushing group function (before ++ .acted (.collect group) calls :: after)
  /-- The function has returned. -/
  | answering {before after : List Act} (begun : Outcome) (calls : List Enrolled) (returned : Outcome)
      (hprelude : ∀ act ∈ before, act.isPrelude = true) (hbegun : resumptions before = [begun])
      (hreplies : ∀ act ∈ after, act.Replies (shares function calls returned))
      (hdone : ∀ outcome, .completed outcome ∈ after →
        ∀ share ∈ shares function calls returned, .acted (.answer share.1 share.2) () ∈ after) :
      Flushing group function (before ++ .acted (.collect group) calls ::
        .acted (.emit (.batchFlushed function.name calls.length)) () :: .performed (invocation function calls) ::
        .resumed returned :: after)

section Flush

variable {acts : List Act} {last : Progress} {group : BatchGroup} {function : Function}

/-- Calls are answered one after another. -/
theorem follows_answerEach {answers : List (Slot × Outcome)}
    (follows : Follows (.running (answerEach (.ok .null) answers)) acts last) :
    (∀ act ∈ acts, act.Replies answers) ∧
      ∀ outcome, .completed outcome ∈ acts → ∀ share ∈ answers, .acted (.answer share.1 share.2) () ∈ acts := by
  induction answers generalizing acts with
  | nil =>
      rcases follows.of_done with cut | rfl
      · exact ⟨cut.replies _, fun outcome hmem => absurd hmem (cut.not_mem (by simp))⟩
      · exact ⟨List.forall_mem_singleton.2 trivial, fun outcome _ => List.forall_mem_nil _⟩
  | cons first answers ih =>
      obtain ⟨slot, result⟩ := first
      rcases follows.of_act with cut | ⟨reply, rest, rfl, further⟩
      · exact ⟨cut.replies _, fun outcome hmem => absurd hmem (cut.not_mem (by simp))⟩
      · obtain ⟨hreplies, hdone⟩ := ih further
        constructor
        · refine List.forall_mem_cons.2 ⟨List.mem_cons_self, fun act hmem => ?_⟩
          exact (hreplies act hmem).mono fun share hshare => List.mem_cons_of_mem _ hshare
        · intro outcome hmem share hshare
          have hcompleted : .completed outcome ∈ rest := by simpa using hmem
          rcases List.mem_cons.1 hshare with rfl | hlater
          · exact List.mem_cons_self
          · exact List.mem_cons_of_mem _ (hdone outcome hcompleted share hlater)

/-- When the function has returned, the calls get their shares. -/
theorem follows_replying {calls : List Enrolled} {returned : Outcome}
    (follows : Follows (.running (match resultsFor function calls.length (returned.bind Value.intoList) with
      | .ok results => answerEach (.ok .null) ((calls.map Enrolled.slot).zip (results.map Except.ok))
      | .error error =>
        .emit (.batchFailed error function.name) <|
          answerEach (.ok .null) (calls.map fun call => (call.slot, .error error)))) acts last) :
    (∀ act ∈ acts, act.Replies (shares function calls returned)) ∧
      ∀ outcome, .completed outcome ∈ acts →
        ∀ share ∈ shares function calls returned, .acted (.answer share.1 share.2) () ∈ acts := by
  unfold shares
  split at follows
  · exact follows_answerEach follows
  · rename_i error _
    rcases follows.of_act with cut | ⟨reply, rest, rfl, further⟩
    · exact ⟨cut.replies _, fun outcome hmem => absurd hmem (cut.not_mem (by simp))⟩
    · obtain ⟨hreplies, hdone⟩ := follows_answerEach further
      refine ⟨List.forall_mem_cons.2 ⟨trivial, hreplies⟩, fun outcome hmem share hshare => ?_⟩
      exact List.mem_cons_of_mem _ (hdone outcome (by simpa using hmem) share hshare)

/-- A flush that has its turn collects the batch, calls the function and answers. -/
theorem flushing_flushNow {before : List Act} {begun : Outcome} (hprelude : ∀ act ∈ before, act.isPrelude = true)
    (hbegun : resumptions before = [begun]) (follows : Follows (.running (flushNow group function)) acts last) :
    Flushing group function (before ++ acts) := by
  rcases follows.of_act with cut | ⟨calls, later, rfl, hcollected⟩
  · exact .waiting (List.forall_mem_append.2 ⟨hprelude, cut.isPrelude⟩)
  rcases hcollected.of_act with cut | ⟨_, asked, rfl, hreported⟩
  · exact .calling calls hprelude (fun act hmem => .inl (cut.isPrelude act hmem)) cut.resumptions_eq
  rcases hreported.of_perform with cut | ⟨rest, rfl, cut⟩ | ⟨returned, rest, rfl, hreturned⟩
  · refine .calling calls hprelude (List.forall_mem_cons.2 ⟨.inl rfl, fun act hmem => ?_⟩) cut.resumptions_eq
    exact .inl (cut.isPrelude act hmem)
  · refine .calling calls hprelude ?_ cut.resumptions_eq
    refine List.forall_mem_cons.2 ⟨.inl rfl, List.forall_mem_cons.2 ⟨.inr rfl, fun act hmem => ?_⟩⟩
    exact .inl (cut.isPrelude act hmem)
  · obtain ⟨hreplies, hdone⟩ := follows_replying hreturned
    exact .answering begun calls returned hprelude hbegun hreplies hdone

/-- Every flush stands somewhere on its course. -/
theorem flushing_of_follows {window : Nat} (follows : Follows (.fresh (flush group function window).body) acts last) :
    Flushing group function acts := by
  rcases follows.of_fresh with cut | ⟨begun, later, rfl, hbegun⟩
  · exact .waiting cut.isPrelude
  unfold flush Computation.named at hbegun
  split at hbegun
  · rcases hbegun.of_act with cut | ⟨reply, rest, rfl, hnow⟩
    · exact .waiting (List.forall_mem_cons.2 ⟨rfl, cut.isPrelude⟩)
    · have hwaited : ∀ act ∈ [Act.resumed begun, .acted .yieldTurn reply], act.isPrelude = true :=
        List.forall_mem_cons.2 ⟨rfl, List.forall_mem_singleton.2 rfl⟩
      exact flushing_flushNow hwaited rfl hnow
  · rcases hbegun.of_act with cut | ⟨reply, rest, rfl, harmed⟩
    · exact .waiting (List.forall_mem_cons.2 ⟨rfl, cut.isPrelude⟩)
    · have hwaited : ∀ act ∈ [Act.resumed begun, .acted (.arm window) reply], act.isPrelude = true :=
        List.forall_mem_cons.2 ⟨rfl, List.forall_mem_singleton.2 rfl⟩
      cases reply with
      | none => exact flushing_flushNow hwaited rfl harmed
      | some timer =>
          rcases harmed.of_act with cut | ⟨place, more, rfl, hnow⟩
          · exact .waiting (List.forall_mem_append.2 ⟨hwaited, cut.isPrelude⟩)
          · have hexpired : ∀ act ∈ [Act.resumed begun, .acted (.arm window) (some timer),
                .acted (.expired [timer]) place], act.isPrelude = true :=
              List.forall_mem_cons.2 ⟨rfl, List.forall_mem_cons.2 ⟨rfl, List.forall_mem_singleton.2 rfl⟩⟩
            exact flushing_flushNow hexpired rfl hnow

end Flush

/-! ## Serving a call -/

/-- What a call comes to with the reply to its waiting. -/
def received (reply : Option Outcome) : Outcome :=
  reply.getD (.error (.type "batch: flushed without a result"))

/-- Where the service of a call stands that has enrolled, by its strides from then on. -/
inductive Joining (group : BatchGroup) (function : Function) (window : Nat) (enrolment : Enrolment) :
    List Act → Prop
  /-- It is about to launch the flush of the batch that it opened. -/
  | opening {acts : List Act} (hopened : enrolment.opened = true) (hprelude : ∀ act ∈ acts, act.isPrelude = true) :
      Joining group function window enrolment acts
  /-- It has launched the flush, and was told nothing. -/
  | launching {acts : List Act} (hopened : enrolment.opened = true) (cut : Cut acts) :
      Joining group function window enrolment
        (.acted (.emit (.batchOpened function.name group.key)) () :: .performed (launch group function window) :: acts)
  /-- It was told that the flush failed. -/
  | refused {acts : List Act} (hopened : enrolment.opened = true) (error : Error)
      (hfailing : Cut acts ∨ (window = 0 ∧ acts = [.completed (.error error)]) ∨
        (window ≠ 0 ∧ ∃ rest, acts = .acted (.abandon group) () :: rest ∧
          (Cut rest ∨ rest = [.completed (.error error)]))) :
      Joining group function window enrolment
        (.acted (.emit (.batchOpened function.name group.key)) () :: .performed (launch group function window) ::
          .resumed (.error error) :: acts)
  /-- It waits for its answer. -/
  | waiting {before after : List Act}
      (hlaunched : enrolment.opened = false ∧ before = [] ∨ enrolment.opened = true ∧
        ∃ value, before = [.acted (.emit (.batchOpened function.name group.key)) (),
          .performed (launch group function window), .resumed (.ok value)])
      (hwaiting : Cut after ∨ ∃ reply rest, after = .acted (.receive enrolment.slot) reply :: rest ∧
        (Cut rest ∨ rest = [.completed (received reply)])) :
      Joining group function window enrolment (before ++ after)

section Handle

variable {acts : List Act} {last : Progress} {group : BatchGroup} {function : Function} {window : Nat}

/-- A batched call belongs to a group, runs alone, or is no call at all. -/
theorem handle_cases (batcher window : Nat) (operation : Effect) :
    (∃ kind definition function key args,
      operation = .custom kind (.batchCall definition function (some key) args) ∧ key.isTruthy = true ∧
        (handle batcher window operation).body = enrolled { batcher, definition, key } function window args) ∨
    (∃ kind definition function key args, operation = .custom kind (.batchCall definition function key args) ∧
      key.filter BatchKey.isTruthy = none ∧ (handle batcher window operation).body = alone function args) ∨
    ∃ outcome, (handle batcher window operation).body = .done outcome := by
  unfold handle Computation.named
  cases hpayload : operation.intoPayload .batchCall with
  | error error => exact .inr (.inr ⟨_, rfl⟩)
  | ok payload =>
      cases payload with
      | batchCall definition function key args =>
          obtain ⟨kind, rfl⟩ : ∃ kind, operation = .custom kind (.batchCall definition function key args) := by
            unfold Effect.intoPayload at hpayload
            split at hpayload
            · split at hpayload
              · cases hpayload
                exact ⟨_, rfl⟩
              · cases hpayload
            · cases hpayload
          cases hkey : key.filter BatchKey.isTruthy with
          | none => exact .inr (.inl ⟨kind, definition, function, key, args, rfl, hkey, by simp [hkey]⟩)
          | some truthy =>
              obtain ⟨rfl, htruthy⟩ := Option.filter_eq_some_iff.1 hkey
              exact .inl ⟨kind, definition, function, truthy, args, rfl, htruthy, by simp [hkey]⟩
      | unit | text | int | value | effects => exact .inr (.inr ⟨_, rfl⟩)

/-- A call that waits for its answer comes to what it receives. -/
theorem follows_awaitAnswer {slot : Slot} (follows : Follows (.running (awaitAnswer slot)) acts last) :
    Cut acts ∨ ∃ reply rest, acts = .acted (.receive slot) reply :: rest ∧
      (Cut rest ∨ rest = [.completed (received reply)]) := by
  rcases follows.of_act with cut | ⟨reply, rest, rfl, hreceived⟩
  · exact .inl cut
  · refine .inr ⟨reply, rest, rfl, ?_⟩
    cases reply <;> exact hreceived.of_done

/-- The service of a call that has enrolled stands somewhere on its course. -/
theorem joining_of_follows {args : List Value} (follows : Follows (.running (enrolled group function window args)) acts last) :
    Cut acts ∨ ∃ (enrolment : Enrolment) (rest : List Act), acts = .acted (.enroll group args) enrolment :: rest ∧
      Joining group function window enrolment rest := by
  rcases follows.of_act with cut | ⟨enrolment, later, rfl, henrolled⟩
  · exact .inl cut
  refine .inr ⟨enrolment, later, rfl, ?_⟩
  cases hopened : (enrolment : Enrolment).opened with
  | false =>
      simp only [hopened] at henrolled
      exact .waiting (.inl ⟨hopened, rfl⟩) (follows_awaitAnswer henrolled)
  | true =>
      simp only [hopened, if_true] at henrolled
      rcases henrolled.of_act with cut | ⟨_, asked, rfl, hreported⟩
      · exact .opening hopened cut.isPrelude
      have hemitted {acts : List Act} (cut : Cut acts) : ∀ act ∈ Act.acted (.emit (.batchOpened function.name group.key)) () :: acts,
          act.isPrelude = true :=
        List.forall_mem_cons.2 ⟨rfl, cut.isPrelude⟩
      by_cases hwindow : window = 0
      · have hlaunch : launch group function window = .bare (flush group function window) := if_pos hwindow
        rw [if_pos hwindow] at hreported
        rcases hreported.of_perform with cut | ⟨rest, rfl, cut⟩ | ⟨answer, rest, rfl, hanswered⟩
        · exact .opening hopened (hemitted cut)
        · rw [← hlaunch]
          exact .launching hopened cut
        · rw [← hlaunch]
          cases answer with
          | ok value => exact .waiting (.inr ⟨hopened, value, rfl⟩) (follows_awaitAnswer hanswered)
          | error error =>
              refine .refused hopened error (hanswered.of_done.imp id fun hrest => .inl ⟨hwindow, hrest⟩)
      · have hlaunch : launch group function window = .fork (.bare (flush group function window)) := if_neg hwindow
        rw [if_neg hwindow] at hreported
        rcases hreported.of_perform with cut | ⟨rest, rfl, cut⟩ | ⟨answer, rest, rfl, hanswered⟩
        · exact .opening hopened (hemitted cut)
        · rw [← hlaunch]
          exact .launching hopened cut
        · rw [← hlaunch]
          cases answer with
          | ok value => exact .waiting (.inr ⟨hopened, value, rfl⟩) (follows_awaitAnswer hanswered)
          | error error =>
              refine .refused hopened error ?_
              rcases hanswered.of_act with cut | ⟨_, final, rfl, habandoned⟩
              · exact .inl cut
              · exact .inr (.inr ⟨hwindow, final, rfl, habandoned.of_done⟩)

end Handle

/-! ## What stands where on a course -/

variable {group : BatchGroup} {function : Function} {acts earlier later : List Act}

/-- Before a flush collects the batch, it waits for its turn. -/
theorem Flushing.before_collect (flushing : Flushing group function acts) {other : BatchGroup} {calls : List Enrolled}
    (hacts : acts = earlier ++ .acted (.collect other) calls :: later) : ∀ act ∈ earlier, act.isPrelude = true := by
  have hsplit {before after : List Act} {more : List Enrolled} (hprelude : ∀ act ∈ before, act.isPrelude = true)
      (hafter : .acted (.collect other) calls ∉ after)
      (hacts : before ++ .acted (.collect group) more :: after = earlier ++ .acted (.collect other) calls :: later) :
      ∀ act ∈ earlier, act.isPrelude = true := by
    rcases order_of_splits hacts with ⟨rfl, -⟩ | ⟨mid, -, rfl⟩ | ⟨mid, rfl, -⟩
    · exact hprelude
    · exact absurd (by simp) hafter
    · cases hprelude (.acted (.collect other) calls) (by simp)
  cases flushing with
  | waiting hprelude => cases hprelude (.acted (.collect other) calls) (by simp [hacts])
  | calling more hprelude hasking hunanswered =>
      refine hsplit hprelude (fun hmem => ?_) hacts
      rcases hasking _ hmem with hact | hact <;> cases hact
  | answering begun more returned hprelude hbegun hreplies hdone =>
      refine hsplit hprelude (fun hmem => ?_) hacts
      simp only [List.mem_cons, reduceCtorEq, false_or] at hmem
      rcases hmem with hact | hmem
      · cases hact
      · exact hreplies _ hmem

/-- A flush performs nothing but the call of its function. -/
theorem Flushing.performs (flushing : Flushing group function acts) {effect : Effect} (hmem : .performed effect ∈ acts) :
    ∃ calls, effect = invocation function calls := by
  cases flushing with
  | waiting hprelude => cases hprelude _ hmem
  | calling calls hprelude hasking hunanswered =>
      rcases List.mem_append.1 hmem with hmem | hmem
      · cases hprelude _ hmem
      · simp only [List.mem_cons, reduceCtorEq, false_or] at hmem
        rcases hasking _ hmem with hact | hact
        · cases hact
        · exact ⟨calls, Act.performed.inj hact⟩
  | answering begun calls returned hprelude hbegun hreplies hdone =>
      rcases List.mem_append.1 hmem with hmem | hmem
      · cases hprelude _ hmem
      · simp only [List.mem_cons, reduceCtorEq, false_or, Act.performed.injEq] at hmem
        rcases hmem with hact | hmem
        · exact ⟨calls, hact⟩
        · exact (hreplies _ hmem).elim

variable {window : Nat} {enrolment : Enrolment}

/-- The service of a call performs nothing but the launch of the flush, right after it has opened the batch. -/
theorem Joining.before_launch (joining : Joining group function window enrolment acts) {effect : Effect}
    (hacts : acts = earlier ++ .performed effect :: later) :
    enrolment.opened = true ∧ effect = launch group function window ∧
      earlier = [.acted (.emit (.batchOpened function.name group.key)) ()] := by
  have hmem : .performed effect ∈ acts := by simp [hacts]
  have hfirst {rest : List Act} (hrest : .performed effect ∉ rest)
      (hacts : .acted (.emit (.batchOpened function.name group.key)) () :: .performed (launch group function window) :: rest =
        earlier ++ .performed effect :: later) :
      effect = launch group function window ∧ earlier = [.acted (.emit (.batchOpened function.name group.key)) ()] := by
    cases earlier with
    | nil => cases (List.cons.inj hacts).1
    | cons head earlier =>
        obtain ⟨rfl, hlaunched⟩ := List.cons.inj hacts
        cases earlier with
        | nil => exact ⟨(Act.performed.inj (List.cons.inj hlaunched).1).symm, rfl⟩
        | cons second earlier => exact absurd (by simp [(List.cons.inj hlaunched).2]) hrest
  have hcut {acts : List Act} (cut : Cut acts) : .performed effect ∉ acts := cut.not_mem (by simp)
  have hended {acts : List Act} {outcome : Outcome} (hacts : Cut acts ∨ acts = [.completed outcome]) :
      .performed effect ∉ acts := by
    rcases hacts with cut | rfl
    · exact hcut cut
    · simp
  cases joining with
  | opening hopened hprelude => cases hprelude _ hmem
  | launching hopened cut => exact ⟨hopened, hfirst (hcut cut) hacts⟩
  | refused hopened error hfailing =>
      refine ⟨hopened, hfirst (fun hmem => ?_) hacts⟩
      have hmem := (List.mem_cons.1 hmem).resolve_left (by simp)
      rcases hfailing with cut | ⟨-, rfl⟩ | ⟨-, rest, rfl, hrest⟩
      · exact hcut cut hmem
      · simp at hmem
      · exact hended hrest (by simpa using hmem)
  | @waiting before after hlaunched hwaiting =>
      have hafter : .performed effect ∉ after := by
        rcases hwaiting with cut | ⟨reply, rest, rfl, hrest⟩
        · exact hcut cut
        · simpa using hended hrest
      rcases hlaunched with ⟨-, rfl⟩ | ⟨hopened, value, rfl⟩
      · exact absurd hmem hafter
      · exact ⟨hopened, hfirst (by simpa using hafter) hacts⟩

/-- The service of a call abandons its group right after it was told that its flush could not be forked. -/
theorem Joining.before_abandon (joining : Joining group function window enrolment acts) {other : BatchGroup}
    (hacts : acts = earlier ++ .acted (.abandon other) () :: later) :
    enrolment.opened = true ∧ window ≠ 0 ∧ other = group ∧ ∃ error,
      earlier = [.acted (.emit (.batchOpened function.name group.key)) (), .performed (launch group function window),
        .resumed (.error error)] := by
  have hmem : .acted (.abandon other) () ∈ acts := by simp [hacts]
  have hother : Act.acted (.abandon other) () ≠ .acted (.emit (.batchOpened function.name group.key)) () := fun hsame => by
    cases hsame
  have hcut {acts : List Act} (cut : Cut acts) : .acted (.abandon other) () ∉ acts := cut.not_mem (by simp)
  have hended {acts : List Act} {outcome : Outcome} (hacts : Cut acts ∨ acts = [.completed outcome]) :
      .acted (.abandon other) () ∉ acts := by
    rcases hacts with cut | rfl
    · exact hcut cut
    · simp
  cases joining with
  | opening hopened hprelude => cases hprelude _ hmem
  | launching hopened cut =>
      exact absurd (by simpa [hother] using hmem) (hcut cut)
  | refused hopened error hfailing =>
      rcases hfailing with cut | ⟨-, rfl⟩ | ⟨hwindow, rest, rfl, hrest⟩
      · exact absurd (by simpa [hother] using hmem) (hcut cut)
      · simp [hother] at hmem
      · have hsplit : [.acted (.emit (.batchOpened function.name group.key)) (), .performed (launch group function window),
            .resumed (.error error)] ++ .acted (.abandon group) () :: rest = earlier ++ .acted (.abandon other) () :: later :=
          hacts
        rcases order_of_splits hsplit with ⟨rfl, hsame, -⟩ | ⟨mid, -, rfl⟩ | ⟨mid, hlate, -⟩
        · cases hsame
          exact ⟨hopened, hwindow, rfl, error, rfl⟩
        · exact absurd (by simp) (hended hrest)
        · have hearly : .acted (.abandon other) () ∈ [Act.acted (.emit (.batchOpened function.name group.key)) (),
              .performed (launch group function window), .resumed (.error error)] := by simp [hlate]
          simp [hother] at hearly
  | @waiting before after hlaunched hwaiting =>
      have hafter : .acted (.abandon other) () ∉ after := by
        rcases hwaiting with cut | ⟨reply, rest, rfl, hrest⟩
        · exact hcut cut
        · have hreceived : Act.acted (.abandon other) () ≠ .acted (.receive enrolment.slot) reply := fun hsame => by
            cases hsame
          simpa [hreceived] using hended hrest
      rcases hlaunched with ⟨-, rfl⟩ | ⟨hopened, value, rfl⟩
      · exact absurd hmem hafter
      · exact absurd (by simpa [hother] using hmem) hafter

end Batch
end EffectMachine
