import EffectMachine.Script.Setup

/-!
# The tables of a list of plugins

A registry is built from plugins one after another, and stops at the first thing that is wrong.  Keys of several plugins
may stand for one kind: their handlers are kept in order, and of their validators the last one counts.

* `Plugin.violations` is all that is wrong with a plugin, in the order in which it is looked at; `Plugin.WellFormed`
  says that nothing is.
* `Plugin.kindOf?` is the kind that a key stands for, and `Registry.Tabulates` says that a registry holds what is
  registered under each kind.
* `Registry.build_eq` is the whole construction in one equation, and `Registry.tabulates_of_build` is the main statement.
-/

namespace EffectMachine
namespace Plugin

/-- What can be wrong with a plugin. -/
inductive Violation where
  /-- Its namespace lacks the mark of namespaces. -/
  | unmarked (space : String)
  /-- It has no namespace for the key of a handler. -/
  | unqualified (key : String)
  /-- It has validators, but no namespace for them. -/
  | homeless
  /-- The key of a validator is qualified. -/
  | qualified (space key : String)

/-- The error that a violation is reported with. -/
def Violation.error : Violation → Error
  | .unmarked space => .registration ("plugin namespace \"" ++ space ++ "\" should start with \"@\"")
  | .unqualified key =>
    .registration ("plugin without namespace must register qualified kinds, got \"" ++ key ++ "\"")
  | .homeless => .registration "plugin without namespace cannot register validators"
  | .qualified space key =>
    .registration ("validator \"" ++ key ++ "\" of \"" ++ space ++ "\" should not be namespaced")

/-- What is wrong with a namespace. -/
def spaceViolation? : Option String → Option Violation
  | some space => if Kind.isQualified space then none else some (.unmarked space)
  | none => none

/-- What is wrong with the key of a handler. -/
def handlerViolation? (space : Option String) (key : String) : Option Violation :=
  if Kind.isQualified key || space.isSome then none else some (.unqualified key)

/-- What is wrong with the key of a validator. -/
def validatorViolation? (space key : String) : Option Violation :=
  if Kind.isQualified key then some (.qualified space key) else none

/-- What is wrong with the validators of a plugin. -/
def validatorViolations (space : Option String) (keys : List String) : List Violation :=
  match keys, space with
  | [], _ => []
  | _ :: _, none => [.homeless]
  | keys, some space => keys.filterMap (validatorViolation? space)

/-- All that is wrong with a plugin: with its namespace, then with its handlers, then with its validators. -/
def violations (plugin : Plugin) : List Violation :=
  (spaceViolation? plugin.space).toList ++
    ((plugin.handlers.map Prod.fst).filterMap (handlerViolation? plugin.space) ++
      validatorViolations plugin.space (plugin.validators.map Prod.fst))

/-- A plugin keeps to the rules of registration. -/
structure WellFormed (plugin : Plugin) : Prop where
  space : ∀ space, plugin.space = some space → Kind.isQualified space = true
  handlers : ∀ entry ∈ plugin.handlers, Kind.isQualified entry.1 = true ∨ plugin.space.isSome = true
  validators : ∀ entry ∈ plugin.validators, plugin.space.isSome = true ∧ Kind.isQualified entry.1 = false

/-- The kind that a key of a plugin stands for: a qualified key for itself, and any other one for the key under the
namespace of the plugin. -/
def kindOf? (space : Option String) (key : String) : Option String :=
  if Kind.isQualified key then some key else space.map fun space => Kind.under space key

/-- Some entries of a plugin with the kinds that their keys stand for. -/
def resolved {α : Type} (space : Option String) (entries : List (String × α)) : List (String × α) :=
  entries.filterMap fun entry => (kindOf? space entry.1).map fun kind => (kind, entry.2)

/-- The handlers of a plugin whose keys stand for a kind. -/
def handlersUnder (kind : String) (plugin : Plugin) : List Handler :=
  (plugin.handlers.filter fun entry => kindOf? plugin.space entry.1 = some kind).map Prod.snd

/-- The validators of a plugin whose keys stand for a kind. -/
def validatorsUnder (kind : String) (plugin : Plugin) : List Validator :=
  (plugin.validators.filter fun entry => kindOf? plugin.space entry.1 = some kind).map Prod.snd

/-- A list of plugins, taken one after another, has this first violation. -/
def FirstViolation (plugins : List Plugin) (violation : Violation) : Prop :=
  ∃ before plugin after, plugins = before ++ plugin :: after ∧ (∀ earlier ∈ before, earlier.WellFormed) ∧
    plugin.violations.head? = some violation

/-! ## Violations -/

theorem handlerViolation?_eq_none_iff {space : Option String} {key : String} :
    handlerViolation? space key = none ↔ Kind.isQualified key = true ∨ space.isSome = true := by
  unfold handlerViolation?
  split <;> simp_all

theorem validatorViolations_eq_nil_iff {space : Option String} {keys : List String} :
    validatorViolations space keys = [] ↔ ∀ key ∈ keys, space.isSome = true ∧ Kind.isQualified key = false := by
  cases keys with
  | nil => simp [validatorViolations]
  | cons key keys =>
      cases space with
      | none => simpa [validatorViolations] using ⟨key, fun hother => absurd rfl hother⟩
      | some space => simp [validatorViolations, validatorViolation?]

/-- Nothing is wrong with a plugin exactly when it keeps to the rules. -/
theorem violations_eq_nil_iff (plugin : Plugin) : plugin.violations = [] ↔ plugin.WellFormed := by
  have hspace : spaceViolation? plugin.space = none ↔
      ∀ space, plugin.space = some space → Kind.isQualified space = true := by
    cases plugin.space <;> simp [spaceViolation?]
  have hhandlers : (plugin.handlers.map Prod.fst).filterMap (handlerViolation? plugin.space) = [] ↔
      ∀ entry ∈ plugin.handlers, Kind.isQualified entry.1 = true ∨ plugin.space.isSome = true := by
    simp only [List.filterMap_eq_nil_iff, List.forall_mem_map, handlerViolation?_eq_none_iff]
  have hvalidators : validatorViolations plugin.space (plugin.validators.map Prod.fst) = [] ↔
      ∀ entry ∈ plugin.validators, plugin.space.isSome = true ∧ Kind.isQualified entry.1 = false := by
    rw [validatorViolations_eq_nil_iff]
    simp
  rw [violations, List.append_eq_nil_iff, List.append_eq_nil_iff, Option.toList_eq_nil_iff, hspace, hhandlers,
    hvalidators]
  exact ⟨fun h => ⟨h.1, h.2.1, h.2.2⟩, fun h => ⟨h.space, h.handlers, h.validators⟩⟩

/-- Nothing is wrong with plugins exactly when all of them keep to the rules. -/
theorem violationsOf_eq_nil_iff {plugins : List Plugin} :
    plugins.flatMap violations = [] ↔ ∀ plugin ∈ plugins, plugin.WellFormed := by
  simp only [List.flatMap_eq_nil_iff, violations_eq_nil_iff]

/-- The first violation is that of the first plugin that has one. -/
theorem firstViolation_iff {plugins : List Plugin} {violation : Violation} :
    (plugins.flatMap violations).head? = some violation ↔ FirstViolation plugins violation := by
  constructor
  · intro hfirst
    induction plugins with
    | nil => cases hfirst
    | cons plugin rest ih =>
        cases hown : plugin.violations with
        | nil =>
            rw [List.flatMap_cons, hown, List.nil_append] at hfirst
            obtain ⟨before, offending, after, rfl, hearlier, hhead⟩ := ih hfirst
            have hplugin := plugin.violations_eq_nil_iff.1 hown
            exact ⟨plugin :: before, offending, after, rfl, List.forall_mem_cons.2 ⟨hplugin, hearlier⟩, hhead⟩
        | cons first others =>
            rw [List.flatMap_cons, hown, List.cons_append, List.head?_cons] at hfirst
            exact ⟨[], plugin, rest, rfl, List.forall_mem_nil _, by rw [hown, List.head?_cons, hfirst]⟩
  · rintro ⟨before, plugin, after, rfl, hearlier, hhead⟩
    obtain ⟨others, hothers⟩ := List.head?_eq_some_iff.1 hhead
    rw [List.flatMap_append, violationsOf_eq_nil_iff.2 hearlier, List.flatMap_cons, hothers]
    rfl

end Plugin

namespace Registry

open Plugin

/-! ## Building -/

/-- What adding to a registry comes to: the first violation, or the registry with some more entries. -/
def extend (registry : Registry) (violations : List Violation) (handlers : List (String × Handler))
    (validators : List (String × Validator)) : Except Error Registry :=
  match violations with
  | [] => .ok { handlers := registry.handlers ++ handlers, validators := registry.validators ++ validators }
  | violation :: _ => .error violation.error

/-- Adding once more is adding all of it. -/
theorem bind_extend (registry : Registry) (violations more : List Violation)
    (handlers furtherHandlers : List (String × Handler)) (validators furtherValidators : List (String × Validator)) :
    (registry.extend violations handlers validators).bind
        (fun later => later.extend more furtherHandlers furtherValidators) =
      registry.extend (violations ++ more) (handlers ++ furtherHandlers) (validators ++ furtherValidators) := by
  cases violations with
  | nil => cases more <;> simp [extend, Except.bind]
  | cons violation others => rfl

theorem extend_handler (registry : Registry) (violations : List Violation) (entry : String × Handler)
    (handlers : List (String × Handler)) (validators : List (String × Validator)) :
    extend { registry with handlers := registry.handlers ++ [entry] } violations handlers validators =
      registry.extend violations (entry :: handlers) validators := by
  cases violations <;> simp [extend]

theorem extend_validator (registry : Registry) (violations : List Violation) (handlers : List (String × Handler))
    (entry : String × Validator) (validators : List (String × Validator)) :
    extend { registry with validators := registry.validators ++ [entry] } violations handlers validators =
      registry.extend violations handlers (entry :: validators) := by
  cases violations <;> simp [extend]

theorem checkSpace_eq (space : Option String) (registry : Registry) :
    (checkSpace space).bind (fun _ => .ok registry) = registry.extend (spaceViolation? space).toList [] [] := by
  cases space with
  | none => simp [checkSpace, spaceViolation?, extend, Except.bind]
  | some space =>
      cases hqualified : Kind.isQualified space <;>
        simp [checkSpace, spaceViolation?, hqualified, extend, Except.bind, Violation.error]

/-- Handlers are added under the kinds of their keys, unless one of the keys is wrong. -/
theorem addHandlers_eq (space : Option String) (registry : Registry) (entries : List (String × Handler)) :
    addHandlers space registry entries =
      registry.extend ((entries.map Prod.fst).filterMap (handlerViolation? space)) (resolved space entries) [] := by
  induction entries generalizing registry with
  | nil => simp [addHandlers, extend, resolved]
  | cons entry rest ih =>
      obtain ⟨key, handler⟩ := entry
      cases hqualified : Kind.isQualified key with
      | true =>
          simp only [addHandlers, handlerKind, hqualified, if_true, ih, extend_handler]
          simp [handlerViolation?, resolved, kindOf?, hqualified]
      | false =>
          cases space with
          | none => simp [addHandlers, handlerKind, hqualified, handlerViolation?, extend, Violation.error]
          | some space =>
              simp only [addHandlers, handlerKind, hqualified, Bool.false_eq_true, if_false, ih, extend_handler]
              simp [handlerViolation?, resolved, kindOf?, hqualified]

/-- Validators are added under the kinds of their keys, unless one of the keys is wrong. -/
theorem addValidators_eq (space : String) (registry : Registry) (entries : List (String × Validator)) :
    addValidators space registry entries =
      registry.extend ((entries.map Prod.fst).filterMap (validatorViolation? space)) []
        (resolved (some space) entries) := by
  induction entries generalizing registry with
  | nil => simp [addValidators, extend, resolved]
  | cons entry rest ih =>
      obtain ⟨key, validator⟩ := entry
      cases hqualified : Kind.isQualified key with
      | true => simp [addValidators, validatorKind, hqualified, validatorViolation?, extend, Violation.error]
      | false =>
          simp only [addValidators, validatorKind, hqualified, Bool.false_eq_true, if_false, ih, extend_validator]
          simp [validatorViolation?, resolved, kindOf?, hqualified]

/-- Adding a plugin comes to the first thing that is wrong with it, or adds its handlers and validators. -/
theorem add_eq (registry : Registry) (plugin : Plugin) :
    registry.add plugin =
      registry.extend plugin.violations (resolved plugin.space plugin.handlers)
        (resolved plugin.space plugin.validators) := by
  have hbind : registry.add plugin =
      ((checkSpace plugin.space).bind fun _ => .ok registry).bind fun later =>
        (later.addHandlers plugin.space plugin.handlers).bind fun later =>
          later.extend (validatorViolations plugin.space (plugin.validators.map Prod.fst)) []
            (resolved plugin.space plugin.validators) := by
    unfold add
    cases checkSpace plugin.space with
    | error _ => rfl
    | ok _ =>
        refine congrArg (registry.addHandlers plugin.space plugin.handlers).bind (funext fun later => ?_)
        cases plugin.validators with
        | nil => simp [validatorViolations, extend, resolved]
        | cons entry rest =>
            cases plugin.space with
            | none => simp [validatorViolations, extend, Violation.error]
            | some space => exact addValidators_eq space later (entry :: rest)
  simp only [hbind, addHandlers_eq, bind_extend, checkSpace_eq, List.append_nil, List.nil_append, violations]

/-- A registry is built unless something is wrong with the plugins, and holds what they register. -/
theorem build_eq (plugins : List Plugin) :
    build plugins =
      extend {} (plugins.flatMap violations) (plugins.flatMap fun plugin => resolved plugin.space plugin.handlers)
        (plugins.flatMap fun plugin => resolved plugin.space plugin.validators) := by
  have hfold (registry : Registry) : plugins.foldlM add registry =
      registry.extend (plugins.flatMap violations)
        (plugins.flatMap fun plugin => resolved plugin.space plugin.handlers)
        (plugins.flatMap fun plugin => resolved plugin.space plugin.validators) := by
    induction plugins generalizing registry with
    | nil => simp [extend, pure, Except.pure]
    | cons plugin rest ih =>
        rw [List.foldlM_cons, add_eq]
        simp only [bind, ih, bind_extend, List.flatMap_cons]
  exact hfold {}

/-! ## Looking up -/

/-- What the keys of a plugin stand for a kind with. -/
theorem filter_resolved {α : Type} (space : Option String) (entries : List (String × α)) (kind : String) :
    ((resolved space entries).filter fun entry => entry.1 = kind).map Prod.snd =
      (entries.filter fun entry => kindOf? space entry.1 = some kind).map Prod.snd := by
  induction entries with
  | nil => rfl
  | cons entry rest ih =>
      cases hkind : kindOf? space entry.1 with
      | none => simpa [resolved, hkind] using ih
      | some other =>
          by_cases hsame : other = kind
          · simpa [resolved, hkind, hsame] using ih
          · simpa [resolved, hkind, hsame] using ih

/-- What several plugins register under a kind. -/
theorem filter_flatMap_resolved {α : Type} (plugins : List Plugin) (entries : Plugin → List (String × α))
    (kind : String) :
    ((plugins.flatMap fun plugin => resolved plugin.space (entries plugin)).filter fun entry => entry.1 = kind).map
        Prod.snd =
      plugins.flatMap fun plugin =>
        ((entries plugin).filter fun entry => kindOf? plugin.space entry.1 = some kind).map Prod.snd := by
  rw [List.filter_flatMap, List.map_flatMap]
  simp only [filter_resolved]

/-- The validator of a kind is the last one that is registered under it. -/
theorem validator?_eq_getLast? (registry : Registry) (kind : String) :
    registry.validator? kind = ((registry.validators.filter fun entry => entry.1 = kind).map Prod.snd).getLast? := by
  rw [validator?, List.getLast?_map, ← List.head?_filter, List.filter_reverse, List.head?_reverse]

/-- A registry holds what plugins register: under each kind the handlers whose keys stand for it, in order of plugins and
then of keys, and the last such validator. -/
structure Tabulates (registry : Registry) (plugins : List Plugin) : Prop where
  handlers : ∀ kind, registry.handlersOf kind = plugins.flatMap (handlersUnder kind)
  validator : ∀ kind, registry.validator? kind = (plugins.flatMap (validatorsUnder kind)).getLast?

theorem Tabulates.of_build {plugins : List Plugin} {registry : Registry} (hbuilt : build plugins = .ok registry) :
    registry.Tabulates plugins := by
  rw [build_eq] at hbuilt
  unfold extend at hbuilt
  split at hbuilt
  · cases hbuilt
    refine ⟨fun kind => ?_, fun kind => ?_⟩
    · exact filter_flatMap_resolved plugins Plugin.handlers kind
    · rw [validator?_eq_getLast?]
      exact congrArg List.getLast? (filter_flatMap_resolved plugins Plugin.validators kind)
  · cases hbuilt

/-! ## The plugins that every machine has -/

/-- The handlers that every machine has of a kind. -/
def builtIn (batcher window : Nat) (kind : String) : List Handler :=
  if kind = Kind.under Kind.batch "execute" then [.ofHandle fun operation _ => Batch.handle batcher window operation]
  else if kind = Kind.under Kind.concurrent "all" then [.ofHandle fun operation _ => Concurrent.allComputation operation]
  else if kind = Kind.under Kind.concurrent "allSettled" then
    [.ofHandle fun operation _ => Concurrent.allSettledComputation operation]
  else []

theorem handlersUnder_builtIn (batcher window : Nat) (kind : String) :
    (Batch.plugin batcher window).handlersUnder kind ++ Concurrent.plugin.handlersUnder kind =
      builtIn batcher window kind := by
  have hbatch : kindOf? (some Kind.batch) "execute" = some (Kind.under Kind.batch "execute") := by decide
  have hall : kindOf? (some Kind.concurrent) "all" = some (Kind.under Kind.concurrent "all") := by decide
  have hsettled : kindOf? (some Kind.concurrent) "allSettled" = some (Kind.under Kind.concurrent "allSettled") := by
    decide
  have hbatchAll : Kind.under Kind.batch "execute" ≠ Kind.under Kind.concurrent "all" := by decide
  have hbatchSettled : Kind.under Kind.batch "execute" ≠ Kind.under Kind.concurrent "allSettled" := by decide
  have hallSettled : Kind.under Kind.concurrent "all" ≠ Kind.under Kind.concurrent "allSettled" := by decide
  simp only [handlersUnder, Batch.plugin, Concurrent.plugin, List.filter_cons, List.filter_nil, hbatch, hall, hsettled,
    Option.some.injEq, decide_eq_true_eq, builtIn, eq_comm (b := kind)]
  by_cases hkind : kind = Kind.under Kind.batch "execute"
  · simp [hkind, hbatchAll, hbatchSettled]
  · by_cases hother : kind = Kind.under Kind.concurrent "all"
    · simp [hother, hallSettled, hbatchAll.symm]
    · by_cases hlast : kind = Kind.under Kind.concurrent "allSettled"
      · simp [hlast, hbatchSettled.symm, hallSettled.symm]
      · simp [hkind, hother, hlast]

/-! ## The main statement -/

/-- Registration builds exactly the tables of a list of plugins.  It succeeds if all of them keep to the rules, and
otherwise reports the first violation, plugin by plugin.  Every kind then has the handlers whose keys stand for it, in order,
and the last such validator; and the handlers that every machine has come after all others of their kinds. -/
theorem tabulates_of_build (plugins : List Plugin) :
    ((∃ registry, build plugins = .ok registry) ↔ ∀ plugin ∈ plugins, plugin.WellFormed) ∧
    (∀ error, build plugins = .error error ↔
      ∃ violation, FirstViolation plugins violation ∧ error = violation.error) ∧
    (∀ registry, build plugins = .ok registry → registry.Tabulates plugins) ∧
    (∀ batcher window registry, build (plugins ++ [Batch.plugin batcher window, Concurrent.plugin]) = .ok registry →
      ∀ kind, registry.handlersOf kind = plugins.flatMap (handlersUnder kind) ++ builtIn batcher window kind) ∧
    ∀ (setup : Script.Setup) (machine : Machine), setup.machine = .ok machine → ∃ batcher,
      build (setup.ownPlugins ++ [Batch.plugin batcher setup.window, Concurrent.plugin]) = .ok machine.registry := by
  refine ⟨?_, fun error => ?_, fun registry hbuilt => .of_build hbuilt, ?_, ?_⟩
  · rw [← violationsOf_eq_nil_iff, build_eq]
    cases plugins.flatMap violations <;> simp [extend]
  · simp only [← firstViolation_iff, build_eq]
    cases plugins.flatMap violations <;> simp [extend, eq_comm]
  · intro batcher window registry hbuilt kind
    rw [(Tabulates.of_build hbuilt).handlers, List.flatMap_append, ← handlersUnder_builtIn batcher window kind]
    simp
  · intro setup machine hmachine
    refine ⟨setup.plugins.length, ?_⟩
    show build setup.allPlugins = .ok machine.registry
    rw [Script.Setup.machine] at hmachine
    cases hbuilt : build setup.allPlugins with
    | error error =>
        rw [hbuilt] at hmachine
        cases hmachine
    | ok registry =>
        rw [hbuilt] at hmachine
        cases hmachine
        rfl

/-! ## A sample -/

/-- A handler that answers every operation with its own name. -/
def signing (name : String) : Handler :=
  .ofHandle fun _ _ => .ready (.str name)

/-- A validator that admits every operation, and one that admits none. -/
def lenient : Validator := fun _ => .done none

def strict : Validator := fun _ => .done (some .cancelled)

/-- Two plugins with a handler and a validator each, whose keys stand for one kind under different namespaces. -/
def rivals : List Plugin :=
  [{ space := some "@a", handlers := [("b/c", signing "early")], validators := [("b/c", lenient)] },
    { space := some "@a/b", handlers := [("@a/b/c", signing "late")], validators := [("c", strict)] }]

/-- Handlers of one kind come in the order of the plugins, and the validator of the last plugin counts. -/
theorem tabulates_of_rivals :
    ∃ registry, build rivals = .ok registry ∧ registry.handlersOf "@a/b/c" = [signing "early", signing "late"] ∧
      registry.validator? "@a/b/c" = some strict := by
  obtain ⟨hbuilds, -, htables, -⟩ := tabulates_of_build rivals
  obtain ⟨registry, hbuilt⟩ := hbuilds.2 <| by
    refine List.forall_mem_cons.2 ⟨⟨?_, ?_, ?_⟩, List.forall_mem_singleton.2 ⟨?_, ?_, ?_⟩⟩
    all_goals simp [Kind.isQualified]
  have tables := htables registry hbuilt
  have hearly : kindOf? (some "@a") "b/c" = some "@a/b/c" := by decide
  have hlate : kindOf? (some "@a/b") "@a/b/c" = some "@a/b/c" := by decide
  have hstrict : kindOf? (some "@a/b") "c" = some "@a/b/c" := by decide
  refine ⟨registry, hbuilt, ?_, ?_⟩
  · simp [tables.handlers, rivals, handlersUnder, hearly, hlate]
  · simp [tables.validator, rivals, validatorsUnder, hearly, hstrict]

end Registry
end EffectMachine
