import EffectMachine.Plugin.Middleware
import EffectMachine.Proofs.Dispatch.Checks
import EffectMachine.Proofs.Registration.Tables

/-!
# Observers

Middleware writes something down, delegates the operation, writes something down about the outcome and ends with it.  It
is registered in front of other plugins, so that its handlers are the first ones of their kinds.

* `Observer` is any such middleware; `Observer.plugin_tracing` and `Observer.plugin_measuring` say that the middleware
  of this library is.
* `Observer.Fronts` says that a machine is another one with the observer in front, as `Observer.exists_build` has it.
* `Observer.Fronts.select_own` and `Observer.Fronts.run_select` say who services an operation then: the observer, or
  who does on the other machine, some positions further on.
-/

namespace EffectMachine

/-- Something that middleware writes down. -/
inductive Note where
  | event (event : Event)
  | count (meter : Nat) (tally : Tally)

/-- Writing something down is an action. -/
def Note.action : Note → Action
  | .event reported => .emit reported
  | .count meter tally => .count meter tally

/-- Writes something down and goes on. -/
def Note.before (note : Note) (rest : Body) : Body :=
  .act note.action fun _ => rest

/-- Middleware for some kinds: what it writes down about an operation, and about its outcome. -/
structure Observer where
  kinds : List String
  name : String
  opening : Effect → List Note
  closing : Effect → Outcome → List Note

namespace Observer

/-- Writes things down and ends. -/
def concluding (notes : List Note) (outcome : Outcome) : Body :=
  notes.foldr Note.before (.done outcome)

/-- Goes on with the outcome of the operation. -/
def resuming (observer : Observer) (operation : Effect) (outcome : Outcome) : Body :=
  concluding (observer.closing operation outcome) outcome

/-- Writes things down and delegates the operation. -/
def delegating (observer : Observer) (operation : Effect) (notes : List Note) : Body :=
  notes.foldr Note.before (.perform (.next operation false) (observer.resuming operation))

/-- The computation that services an operation. -/
def computation (observer : Observer) (operation : Effect) : Computation :=
  .named observer.name (observer.delegating operation (observer.opening operation))

/-- The handler of every kind. -/
def handler (observer : Observer) : Handler :=
  .ofHandle fun operation _ => observer.computation operation

/-- The plugin, which has no namespace. -/
def plugin (observer : Observer) : Plugin :=
  .intercepting observer.kinds fun operation _ => observer.computation operation

/-- Reports start and outcome. -/
def tracing (kinds : List String) : Observer where
  kinds := kinds
  name := "trace"
  opening operation := [.event (.operationStarted operation.kind)]
  closing operation
    | .ok _ => [.event (.operationSucceeded operation.kind)]
    | .error error => [.event (.operationFailed operation.kind error)]

/-- Counts operations and failures. -/
def measuring (meter : Nat) (kinds : List String) : Observer where
  kinds := kinds
  name := "metrics"
  opening _ := [.count meter .dispatched]
  closing _
    | .ok _ => []
    | .error _ => [.count meter .failed]

theorem plugin_tracing (kinds : List String) : (tracing kinds).plugin = Middleware.trace kinds := by
  have hcomputation : (tracing kinds).computation = Middleware.traced := by
    funext operation
    have hresuming : (tracing kinds).resuming operation = fun outcome =>
        .emit
          (match outcome with
            | .ok _ => .operationSucceeded operation.kind
            | .error error => .operationFailed operation.kind error)
          (.done outcome) := by
      funext outcome
      cases outcome <;> rfl
    unfold computation delegating
    rw [hresuming]
    rfl
  unfold plugin
  rw [hcomputation]
  rfl

theorem plugin_measuring (meter : Nat) (kinds : List String) :
    (measuring meter kinds).plugin = Middleware.metrics meter kinds := by
  have hcomputation : (measuring meter kinds).computation = Middleware.measured meter := by
    funext operation
    have hresuming : (measuring meter kinds).resuming operation = fun
        | .ok value => .ok value
        | .error error => .act (.count meter .failed) fun _ => .fail error := by
      funext outcome
      cases outcome <;> rfl
    unfold computation delegating
    rw [hresuming]
    rfl
  unfold plugin
  rw [hcomputation]
  rfl

end Observer

/-! ## Tags -/

namespace Middleware

/-- The tag of one of the first handlers of its kind, as many as there are in front for the kind. -/
def ownsTag (kinds : List String) (tag : HandlerTag) : Bool :=
  decide (tag.index < kinds.count tag.kind)

/-- A frame that runs a handler in front. -/
def owns (kinds : List String) (frame : Frame) : Bool :=
  frame.tag.any (ownsTag kinds)

/-- The tag of a handler, counted from behind those in front. -/
def plainTag (kinds : List String) (tag : HandlerTag) : HandlerTag :=
  { tag with index := tag.index - kinds.count tag.kind }

@[simp] theorem plainTag_nil (tag : HandlerTag) : plainTag [] tag = tag := by
  simp [plainTag]

/-- A frame as it is without the handlers in front. -/
def plainFrame (kinds : List String) (frame : Frame) : Frame :=
  { frame with tag := frame.tag.map (plainTag kinds) }

/-- The frames that are there without the handlers in front. -/
def plainFrames (kinds : List String) (frames : List Frame) : List Frame :=
  (frames.filter fun frame => !owns kinds frame).map (plainFrame kinds)

section Frames

variable (kinds : List String) (frame : Frame) (frames : List Frame)

variable {frame}

theorem plainFrames_own (howns : owns kinds frame = true) :
    plainFrames kinds (frame :: frames) = plainFrames kinds frames := by
  simp [plainFrames, howns]

theorem plainFrames_other (hother : owns kinds frame = false) :
    plainFrames kinds (frame :: frames) = plainFrame kinds frame :: plainFrames kinds frames := by
  simp [plainFrames, hother]

theorem owns_of_tag {other : Frame} (htag : other.tag = frame.tag) : owns kinds other = owns kinds frame := by
  simp [owns, htag]

theorem owns_of_untagged (htag : frame.tag = none) : owns kinds frame = false := by
  simp [owns, htag]

@[simp] theorem plainFrame_absorb (outcome : Outcome) :
    plainFrame kinds (frame.absorb outcome) = (plainFrame kinds frame).absorb outcome := by
  obtain ⟨progress, name, tag, result, defers, cancellation, answerable⟩ := frame
  cases progress <;> cases outcome <;> cases result <;> rfl

@[simp] theorem owns_absorb (outcome : Outcome) : owns kinds (frame.absorb outcome) = owns kinds frame := by
  obtain ⟨progress, name, tag, result, defers, cancellation, answerable⟩ := frame
  cases progress <;> cases outcome <;> cases result <;> rfl

@[simp] theorem owns_markCanceled : owns kinds frame.markCanceled = owns kinds frame := by
  obtain ⟨progress, name, tag, result, defers, cancellation, answerable⟩ := frame
  cases cancellation <;> rfl

@[simp] theorem plainFrame_markCanceled :
    plainFrame kinds frame.markCanceled = (plainFrame kinds frame).markCanceled := by
  obtain ⟨progress, name, tag, result, defers, cancellation, answerable⟩ := frame
  cases cancellation <;> rfl

theorem plainFrames_markCanceled :
    plainFrames kinds (frames.map Frame.markCanceled) = (plainFrames kinds frames).map Frame.markCanceled := by
  induction frames with
  | nil => rfl
  | cons frame rest ih =>
      cases howns : owns kinds frame with
      | true => rw [List.map_cons, plainFrames_own _ _ ((owns_markCanceled _).trans howns), plainFrames_own _ _ howns, ih]
      | false =>
          rw [List.map_cons, plainFrames_other _ _ ((owns_markCanceled _).trans howns), plainFrames_other _ _ howns,
            List.map_cons, ih, plainFrame_markCanceled]

end Frames
end Middleware

/-! ## Handlers in front -/

namespace Registry

/-- Positions may be counted from anywhere. -/
theorem firstAccepting_add (operation : Effect) (context : Context) (handlers : List Handler) (position shift : Nat) :
    firstAccepting operation context handlers (position + shift) =
      (firstAccepting operation context handlers position).bind fun found =>
        .done (found.map fun entry => (entry.1 + shift, entry.2)) := by
  induction handlers generalizing position with
  | nil => rfl
  | cons handler rest ih =>
      rw [firstAccepting, firstAccepting, Probe.bind_assoc]
      congr 1
      funext accepted
      cases accepted with
      | true => rfl
      | false =>
          show firstAccepting operation context rest (position + shift + 1) = _
          rw [Nat.add_right_comm]
          exact ih (position + 1)

end Registry

/-- A machine is another one with an observer in front of all its plugins.  Delegations themselves are not observed. -/
structure Observer.Fronts (observer : Observer) (fronted machine : Machine) : Prop where
  handlers : fronted.registry.handlers = observer.plugin.handlers ++ machine.registry.handlers
  validators : fronted.registry.validators = machine.registry.validators
  library : fronted.library = machine.library
  delegations : Kind.next ∉ observer.kinds

namespace Observer

/-- Registering an observer with qualified kinds in front of other plugins builds such a machine. -/
theorem exists_build (observer : Observer) (hqualified : ∀ kind ∈ observer.kinds, Kind.isQualified kind = true)
    (hnext : Kind.next ∉ observer.kinds) {plugins : List Plugin} {registry : Registry}
    (hplain : Registry.build plugins = .ok registry) : ∃ front, Registry.build (observer.plugin :: plugins) = .ok front ∧
      ∀ library : Library, observer.Fronts ⟨front, library⟩ ⟨registry, library⟩ := by
  have hentries : ∀ entry ∈ observer.plugin.handlers, Kind.isQualified entry.1 = true :=
    List.forall_mem_map.2 fun kind hkind => hqualified kind hkind
  have hown : observer.plugin.violations = [] :=
    (Plugin.violations_eq_nil_iff _).2 ⟨nofun, fun entry hentry => .inl (hentries entry hentry), nofun⟩
  have hresolved : Plugin.resolved none observer.plugin.handlers = observer.plugin.handlers := by
    unfold Plugin.resolved
    rw [List.filterMap_congr (g := some) fun entry hentry => by simp [Plugin.kindOf?, hentries entry hentry],
      List.filterMap_some]
  rw [Registry.build_eq] at hplain ⊢
  rw [List.flatMap_cons, hown, List.nil_append]
  cases hviolations : plugins.flatMap Plugin.violations with
  | cons violation others =>
      rw [hviolations] at hplain
      cases hplain
  | nil =>
      rw [hviolations] at hplain
      cases hplain
      refine ⟨_, rfl, fun library => ⟨?_, rfl, rfl, hnext⟩⟩
      show [] ++ (Plugin.resolved none observer.plugin.handlers ++ _) = observer.plugin.handlers ++ ([] ++ _)
      rw [hresolved]
      rfl

namespace Fronts

variable {observer : Observer} {fronted machine : Machine}

theorem handlersOf (hfronts : observer.Fronts fronted machine) (kind : String) :
    fronted.registry.handlersOf kind =
      List.replicate (observer.kinds.count kind) observer.handler ++ machine.registry.handlersOf kind := by
  have hown : ((observer.plugin.handlers.filter fun entry => entry.1 = kind).map Prod.snd) =
      List.replicate (observer.kinds.count kind) observer.handler := by
    show ((observer.kinds.map fun kind => (kind, observer.handler)).filter _).map Prod.snd = _
    induction observer.kinds with
    | nil => rfl
    | cons first rest ih =>
        by_cases hfirst : first = kind
        · subst hfirst
          simp only [List.map_cons, List.filter_cons, decide_true, if_true, List.count_cons_self, List.replicate_succ]
          exact congrArg _ ih
        · simp only [List.map_cons, List.filter_cons, decide_eq_false hfirst, Bool.false_eq_true, if_false,
            List.count_cons_of_ne hfirst]
          exact ih
  unfold Registry.handlersOf
  rw [hfronts.handlers, List.filter_append, List.map_append, hown]

/-- The first positions of a kind are the observer's. -/
theorem select_own (hfronts : observer.Fronts fronted machine) {operation : Effect} {first : Nat}
    (hfirst : first < observer.kinds.count operation.kind) (context : Context) :
    fronted.registry.select operation context first = .done (some (first, observer.handler)) := by
  unfold Registry.select
  rw [hfronts.handlersOf, List.drop_append_of_le_length (by simpa using Nat.le_of_lt hfirst), List.drop_replicate]
  obtain ⟨left, hleft⟩ := Nat.exists_eq_add_of_lt hfirst
  have hpositive : observer.kinds.count operation.kind - first = left + 1 := by omega
  rw [hpositive, List.replicate_succ, List.cons_append]
  rfl

/-- Behind them are those of the other machine. -/
theorem run_select (hfronts : observer.Fronts fronted machine) {operation : Effect} {first : Nat}
    (hfirst : observer.kinds.count operation.kind ≤ first) (context : Context) (host : Host) :
    host.run (fronted.registry.select operation context first) =
      ((host.run (machine.registry.select operation context (first - observer.kinds.count operation.kind))).1.map
          fun entry => (entry.1 + observer.kinds.count operation.kind, entry.2),
        (host.run (machine.registry.select operation context (first - observer.kinds.count operation.kind))).2) := by
  have hshift := Registry.firstAccepting_add operation context
    ((machine.registry.handlersOf operation.kind).drop (first - observer.kinds.count operation.kind))
    (first - observer.kinds.count operation.kind) (observer.kinds.count operation.kind)
  rw [Nat.sub_add_cancel hfirst] at hshift
  unfold Registry.select
  rw [hfronts.handlersOf, List.drop_append, List.length_replicate, List.drop_of_length_le (by simpa using hfirst),
    List.nil_append, hshift, Host.run_bind_done]

theorem hasHandlers_of_not_mem (hfronts : observer.Fronts fronted machine) {kind : String} (hkind : kind ∉ observer.kinds) :
    fronted.registry.hasHandlers kind = machine.registry.hasHandlers kind := by
  unfold Registry.hasHandlers
  rw [hfronts.handlersOf, List.count_eq_zero_of_not_mem hkind]
  rfl

theorem validate (hfronts : observer.Fronts fronted machine) (effect : Effect) :
    fronted.registry.validate effect = machine.registry.validate effect :=
  Registry.validate_congr hfronts.validators effect

theorem invoke (hfronts : observer.Fronts fronted machine) (function : Function) (args : List Value) :
    fronted.invoke function args = machine.invoke function args := by
  unfold Machine.invoke
  rw [hfronts.library]

end Fronts
end Observer
end EffectMachine
