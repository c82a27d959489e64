import EffectMachine.Proofs.Dispatch.Checks

/-!
# Who services an operation

The handlers of the kind of an operation are asked in order of registration, from some position on, and the first one that
takes the operation services it.  When none does, the core rule of the operation applies.

* `Registry.Selects` says who services an operation, and `Registry.selects_iff` that this is who the machine finds.
* `Machine.dispatch_eq` puts this together with `Machine.serve`, which says what becomes of a run when it is known who services
  the effect.
* `Machine.Services` says at which position the search begins: at the first one for an effect that is performed, and behind
  the position of the delegating handler for one that is delegated.
-/

namespace EffectMachine

/-- A handler is asked about an operation and does not take it. -/
def Handler.Declines (operation : Effect) (context : Context) (handler : Handler) (host later : Host) : Prop :=
  host.run (handler.accepts operation context) = (false, later)

namespace Registry

/-- Who services an operation, from a position on: the handler at the first position whose handler takes it, or nobody. -/
inductive Selects (registry : Registry) (operation : Effect) (context : Context) (first : Nat) (host : Host) :
    Option (Nat × Handler) → Host → Prop
  | handler {middle later : Host} {index : Nat} {handler : Handler} (hfirst : first ≤ index)
      (hhandler : (registry.handlersOf operation.kind)[index]? = some handler)
      (hdeclined : Host.Through (Handler.Declines operation context) host
        (((registry.handlersOf operation.kind).take index).drop first) middle)
      (haccepts : middle.run (handler.accepts operation context) = (true, later)) :
      Selects registry operation context first host (some (index, handler)) later
  | nobody {later : Host}
      (hdeclined : Host.Through (Handler.Declines operation context) host
        ((registry.handlersOf operation.kind).drop first) later) :
      Selects registry operation context first host none later

variable {registry : Registry} {operation : Effect} {context : Context} {host later : Host}

/-- Asking handlers in order finds the first one that takes an operation. -/
theorem firstAccepting_iff {handlers : List Handler} {position : Nat} {choice : Option (Nat × Handler)} :
    host.run (firstAccepting operation context handlers position) = (choice, later) ↔
      (∃ declined handler others middle, handlers = declined ++ handler :: others ∧
        choice = some (position + declined.length, handler) ∧
        Host.Through (Handler.Declines operation context) host declined middle ∧
        middle.run (handler.accepts operation context) = (true, later)) ∨
      choice = none ∧ Host.Through (Handler.Declines operation context) host handlers later := by
  induction handlers generalizing position host with
  | nil =>
      constructor
      · intro hrun
        cases hrun
        exact .inr ⟨rfl, .nil _⟩
      · rintro (⟨_, _, _, _, hnil, -⟩ | ⟨rfl, hdeclined⟩)
        · simp at hnil
        · cases hdeclined
          rfl
  | cons handler rest ih =>
      rw [firstAccepting, Host.run_bind]
      rcases hasked : host.run (handler.accepts operation context) with ⟨accepted, next⟩
      cases accepted with
      | true =>
          constructor
          · intro hrun
            cases hrun
            exact .inl ⟨[], handler, rest, host, rfl, rfl, .nil host, hasked⟩
          · rintro (⟨declined, taker, others, middle, hhandlers, rfl, hdeclined, haccepts⟩ | ⟨-, hdeclined⟩)
            · cases hdeclined with
              | nil =>
                  obtain ⟨rfl, rfl⟩ := List.cons.inj hhandlers
                  rw [hasked] at haccepts
                  cases haccepts
                  rfl
              | cons hfirst _ =>
                  obtain ⟨rfl, -⟩ := List.cons.inj hhandlers
                  cases hasked.symm.trans hfirst
            · cases hdeclined with
              | cons hfirst _ => cases hasked.symm.trans hfirst
      | false =>
          show next.run (firstAccepting operation context rest (position + 1)) = (choice, later) ↔ _
          rw [ih]
          constructor
          · rintro (⟨declined, taker, others, middle, rfl, rfl, hdeclined, haccepts⟩ | ⟨rfl, hdeclined⟩)
            · refine .inl ⟨handler :: declined, taker, others, middle, rfl, ?_, .cons hasked hdeclined, haccepts⟩
              rw [List.length_cons, Nat.add_assoc, Nat.add_comm 1]
            · exact .inr ⟨rfl, .cons hasked hdeclined⟩
          · rintro (⟨declined, taker, others, middle, hhandlers, rfl, hdeclined, haccepts⟩ | ⟨rfl, hdeclined⟩)
            · cases hdeclined with
              | nil =>
                  obtain ⟨rfl, -⟩ := List.cons.inj hhandlers
                  cases hasked.symm.trans haccepts
              | @cons _ _ _ _ declined hfirst hrest =>
                  obtain ⟨rfl, rfl⟩ := List.cons.inj hhandlers
                  cases hasked.symm.trans hfirst
                  refine .inl ⟨declined, taker, others, middle, rfl, ?_, hrest, haccepts⟩
                  rw [List.length_cons, Nat.add_assoc, Nat.add_comm 1]
            · cases hdeclined with
              | cons hfirst hrest =>
                  cases hasked.symm.trans hfirst
                  exact .inr ⟨rfl, hrest⟩

/-- Who the machine finds to service an operation is who does. -/
theorem selects_iff {first : Nat} {choice : Option (Nat × Handler)} :
    registry.Selects operation context first host choice later ↔
      host.run (registry.select operation context first) = (choice, later) := by
  rw [select, firstAccepting_iff]
  constructor
  · intro hselects
    cases hselects with
    | nobody hdeclined => exact .inr ⟨rfl, hdeclined⟩
    | @handler middle _ index handler hfirst hhandler hdeclined haccepts =>
        obtain ⟨hindex, hget⟩ := List.getElem?_eq_some_iff.1 hhandler
        refine .inl ⟨_, handler, (registry.handlersOf operation.kind).drop (index + 1), middle, ?_, ?_, hdeclined, haccepts⟩
        · have hsplit := congrArg (List.drop first) (List.take_append_drop index (registry.handlersOf operation.kind)).symm
          rw [hsplit, List.drop_append_of_le_length (by simp; omega), List.drop_eq_getElem_cons hindex, hget]
        · rw [List.length_drop, List.length_take]
          congr 2
          omega
  · rintro (⟨declined, handler, others, middle, hhandlers, rfl, hdeclined, haccepts⟩ | ⟨rfl, hdeclined⟩)
    · have hlength : first + declined.length < (registry.handlersOf operation.kind).length := by
        have hlong := congrArg List.length hhandlers
        simp at hlong
        omega
      refine .handler (Nat.le_add_right _ _) ?_ ?_ haccepts
      · have hget := congrArg (·[declined.length]?) hhandlers
        simpa [List.getElem?_drop] using hget
      · have htake := congrArg (List.take declined.length) hhandlers
        rw [List.take_left, List.take_drop] at htake
        rw [htake]
        exact hdeclined
    · exact .nobody hdeclined

/-- Somebody services an operation, or nobody does. -/
theorem exists_selects (registry : Registry) (operation : Effect) (context : Context) (first : Nat) (host : Host) :
    ∃ choice later, registry.Selects operation context first host choice later :=
  ⟨_, _, selects_iff.2 rfl⟩

end Registry

/-- A delegation in place discards the frame that it comes from. -/
def Effect.discards : Effect → List Act
  | .next _ true => [.dropped]
  | _ => []

namespace Machine

variable {machine : Machine} {effect : Effect} {run : Run} {later : Host}

theorem dispatch_eq (run : Run) {first : Nat} {choice : Option (Nat × Handler)}
    (hselects : machine.registry.Selects effect.operation run.stack.context first run.host choice later) :
    machine.dispatch effect first run = machine.serve effect choice { run with host := later } :=
  dispatch_of_select (Registry.selects_iff.1 hselects)

theorem dispatchActs_eq (run : Run) {first : Nat} {choice : Option (Nat × Handler)}
    (hselects : machine.registry.Selects effect.operation run.stack.context first run.host choice later) :
    machine.dispatchActs effect first run = machine.serveActs effect choice { run with host := later } :=
  dispatchActs_of_select (Registry.selects_iff.1 hselects)

/-- Without handlers of delegations, one that is not misplaced goes on with the effect, behind the delegating handler. -/
theorem dispatch_delegation (run : Run) (hnext : machine.registry.hasHandlers Kind.next = false) {tag : HandlerTag}
    (htag : run.stack.top.tag = some tag) (hkind : tag.kind = effect.kind) :
    machine.dispatch (.next effect false) 0 run = machine.dispatch effect (tag.index + 1) run ∧
      machine.dispatchActs (.next effect false) 0 run = machine.dispatchActs effect (tag.index + 1) run ∧
      ∀ reached, run.terminateTop = .ok reached →
        machine.dispatch (.next effect true) 0 run = machine.dispatch effect (tag.index + 1) reached ∧
        machine.dispatchActs (.next effect true) 0 run = .dropped :: machine.dispatchActs effect (tag.index + 1) reached := by
  have hdelegation : delegation run effect = .ok (tag.index + 1) := by
    unfold delegation
    simp only [htag, hkind, if_true]
  have hcore (inPlace : Bool) := machine.dispatch_eq_core (.next effect inPlace) hnext 0 run
  refine ⟨?_, ?_, fun reached hterminated => ⟨?_, ?_⟩⟩
  · rw [(hcore false).1]
    simp only [core, hdelegation, Bool.false_eq_true, if_false]
  · rw [(hcore false).2]
    simp only [coreActs, hdelegation, Bool.false_eq_true, if_false]
  · rw [(hcore true).1]
    simp only [core, hdelegation, hterminated, if_true]
  · rw [(hcore true).2]
    simp only [coreActs, hdelegation, hterminated, if_true]

/-- How an effect that the top frame hands on is serviced: which effect it comes to, from which position on handlers are
asked about that, who services it, and what becomes of the run.  A delegation from the frame of a handler goes on behind the
position of that handler, from the frame or in place of it. -/
inductive Services (machine : Machine) (run : Run) : Effect → Effect → Nat → Option (Nat × Handler) → Handled → Prop
  | direct {effect : Effect} {later final : Host} {choice : Option (Nat × Handler)}
      (hadmits : machine.registry.Admits run.host effect.chain later)
      (hselects : machine.registry.Selects effect.operation run.stack.context 0 later choice final) :
      Services machine run effect effect 0 choice (machine.serve effect choice { run with host := final })
  | delegated {effect : Effect} {tag : HandlerTag} {later final : Host} {choice : Option (Nat × Handler)}
      (hadmits : machine.registry.Admits run.host (Effect.next effect false).chain later)
      (htag : run.stack.top.tag = some tag) (hkind : tag.kind = effect.kind)
      (hselects : machine.registry.Selects effect.operation run.stack.context (tag.index + 1) later choice final) :
      Services machine run (.next effect false) effect (tag.index + 1) choice
        (machine.serve effect choice { run with host := final })
  | inPlace {effect : Effect} {tag : HandlerTag} {later final : Host} {choice : Option (Nat × Handler)} {reached : Run}
      (hadmits : machine.registry.Admits run.host (Effect.next effect true).chain later)
      (htag : run.stack.top.tag = some tag) (hkind : tag.kind = effect.kind)
      (hterminated : { run with host := later }.terminateTop = .ok reached)
      (hselects : machine.registry.Selects effect.operation run.stack.context (tag.index + 1) reached.host choice final) :
      Services machine run (.next effect true) effect (tag.index + 1) choice
        (machine.serve effect choice { reached with host := final })

/-- The top frame of a stack that has frames below it can be discarded. -/
theorem exists_terminateTop (run : Run) (hbelow : run.stack.below ≠ []) : ∃ reached, run.terminateTop = .ok reached := by
  unfold Run.terminateTop
  split
  · exact absurd ‹_› hbelow
  · exact ⟨_, rfl⟩

namespace Services

variable {serviced : Effect} {first : Nat} {choice : Option (Nat × Handler)} {handled : Handled}

/-- An effect that is admitted is serviced, by the first handler that takes it of all those of its kind. -/
theorem exists_direct (hadmits : machine.registry.Admits run.host effect.chain later) :
    ∃ choice handled, machine.Services run effect effect 0 choice handled := by
  obtain ⟨choice, final, hselects⟩ := machine.registry.exists_selects effect.operation run.stack.context 0 later
  exact ⟨choice, _, .direct hadmits hselects⟩

/-- A delegation from the frame of a handler is serviced, by the first handler behind it that takes the effect. -/
theorem exists_delegated {inPlace : Bool} {tag : HandlerTag}
    (hadmits : machine.registry.Admits run.host (Effect.next effect inPlace).chain later)
    (htag : run.stack.top.tag = some tag) (hkind : tag.kind = effect.kind) (hbelow : run.stack.below ≠ []) :
    ∃ choice handled, machine.Services run (.next effect inPlace) effect (tag.index + 1) choice handled := by
  cases inPlace with
  | false =>
      obtain ⟨choice, final, hselects⟩ :=
        machine.registry.exists_selects effect.operation run.stack.context (tag.index + 1) later
      exact ⟨choice, _, .delegated hadmits htag hkind hselects⟩
  | true =>
      obtain ⟨reached, hterminated⟩ := exists_terminateTop { run with host := later } hbelow
      obtain ⟨choice, final, hselects⟩ :=
        machine.registry.exists_selects effect.operation run.stack.context (tag.index + 1) reached.host
      exact ⟨choice, _, .inPlace hadmits htag hkind hterminated hselects⟩

/-- A handler that services an effect is found at the first position or behind it. -/
theorem index_bounds {index : Nat} {handler : Handler}
    (services : machine.Services run effect serviced first (some (index, handler)) handled) :
    first ≤ index ∧ (machine.registry.handlersOf serviced.kind)[index]? = some handler := by
  cases services with
  | direct _ hselects | delegated _ _ _ hselects | inPlace _ _ _ _ hselects =>
      cases hselects with
      | handler hfirst hhandler => exact ⟨hfirst, Effect.kind_operation _ ▸ hhandler⟩

/-- No frame is discarded when an effect is serviced that is performed, or delegated from its frame. -/
theorem discards_eq (hnext : machine.registry.hasHandlers Kind.next = false) {index : Nat} {handler : Handler}
    (services : machine.Services run effect serviced first (some (index, handler)) handled)
    (heffect : effect = serviced ∨ effect = .next serviced false) : effect.discards = [] := by
  rcases heffect with rfl | rfl
  · cases effect with
    | next inner inPlace =>
        have hmem := List.mem_of_getElem? services.index_bounds.2
        have hnone : machine.registry.handlersOf Kind.next = [] := by simpa [Registry.hasHandlers] using hnext
        rw [Effect.kind, hnone] at hmem
        cases hmem
    | _ => rfl
  · rfl

/-- Without handlers of delegations, this is what the machine makes of an effect.  A handler that services it does so in a
new frame, which is tagged with its position; a delegation in place discards the delegating frame first. -/
theorem attempt_eq (hnext : machine.registry.hasHandlers Kind.next = false)
    (services : machine.Services run effect serviced first choice handled) :
    machine.attempt effect run = handled ∧ ∀ index handler, choice = some (index, handler) →
      machine.handleActs effect run = effect.discards ++
        [.pushed (handler.handle serviced.operation run.stack.context) (some ⟨serviced.kind, index⟩)] := by
  have hacts {later : Host} (hadmits : machine.registry.Admits run.host effect.chain later) {acts : List Act}
      (hdispatch : machine.dispatch effect 0 { run with host := later } = handled) (hfailure : handled.failure = none)
      (hdispatchActs : machine.dispatchActs effect 0 { run with host := later } = acts) :
      machine.handleActs effect run = acts := by
    simp only [handleActs, Registry.validate_eq, hadmits.run_eq, hdispatch, hfailure, hdispatchActs]
    exact List.append_nil acts
  cases services with
  | @direct _ later final choice hadmits hselects =>
      have hdispatch := dispatch_eq { run with host := later } hselects
      refine ⟨(attempt_of_admits hadmits).trans hdispatch, ?_⟩
      rintro index handler rfl
      rw [(Services.direct hadmits hselects).discards_eq hnext (.inl rfl)]
      exact hacts hadmits hdispatch rfl (dispatchActs_eq { run with host := later } hselects)
  | @delegated _ tag later final choice hadmits htag hkind hselects =>
      obtain ⟨hgoes, hgoesActs, -⟩ := dispatch_delegation { run with host := later } hnext htag hkind
      have hdispatch := hgoes.trans (dispatch_eq { run with host := later } hselects)
      refine ⟨(attempt_of_admits hadmits).trans hdispatch, ?_⟩
      rintro index handler rfl
      exact hacts hadmits hdispatch rfl (hgoesActs.trans (dispatchActs_eq { run with host := later } hselects))
  | @inPlace _ tag later final choice reached hadmits htag hkind hterminated hselects =>
      obtain ⟨-, -, hgoes⟩ := dispatch_delegation { run with host := later } hnext htag hkind
      obtain ⟨hgoes, hgoesActs⟩ := hgoes reached hterminated
      have hcontext : reached.stack.context = run.stack.context :=
        @context_of_terminateTop { run with host := later } _ hterminated
      rw [← hcontext] at hselects ⊢
      have hdispatch := hgoes.trans (dispatch_eq reached hselects)
      refine ⟨(attempt_of_admits hadmits).trans hdispatch, ?_⟩
      rintro index handler rfl
      exact hacts hadmits hdispatch rfl (hgoesActs.trans (congrArg _ (dispatchActs_eq reached hselects)))

end Services
end Machine
end EffectMachine
