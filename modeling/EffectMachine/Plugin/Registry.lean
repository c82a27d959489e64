import EffectMachine.Plugin.Basic

/-!
# Registries

The handler and validator tables built from an ordered list of plugins.  Handlers of one kind
accumulate in order of registration, the last validator of a kind wins, and the first malformed plugin stops the
construction.
-/

namespace EffectMachine

/-- Handler and validator tables. -/
structure Registry where
  /-- Every handler with its kind, in order of registration. -/
  handlers : List (String × Handler) := []
  /-- Every validator with its kind, in order of registration. -/
  validators : List (String × Validator) := []

namespace Registry

/-- The kind of a handler key of a plugin. -/
def handlerKind (space : Option String) (key : String) : Except Error String :=
  if Kind.isQualified key then .ok key
  else
    match space with
    | some space => .ok (Kind.under space key)
    | none => .error (.registration
        ("plugin without namespace must register qualified kinds, got \"" ++ key ++ "\""))

/-- The kind of a validator key of a plugin with a namespace. -/
def validatorKind (space key : String) : Except Error String :=
  if Kind.isQualified key then
    .error (.registration
      ("validator \"" ++ key ++ "\" of \"" ++ space ++ "\" should not be namespaced"))
  else .ok (Kind.under space key)

/-- Refuses a namespace without the mark of namespaces. -/
def checkSpace : Option String → Except Error Unit
  | some space =>
    if Kind.isQualified space then .ok ()
    else .error (.registration
      ("plugin namespace \"" ++ space ++ "\" should start with \"@\""))
  | none => .ok ()

/-- Adds the handlers of a plugin. -/
def addHandlers (space : Option String) (registry : Registry) :
    List (String × Handler) → Except Error Registry
  | [] => .ok registry
  | (key, handler) :: rest =>
    match handlerKind space key with
    | .ok kind =>
      addHandlers space { registry with handlers := registry.handlers ++ [(kind, handler)] } rest
    | .error error => .error error

/-- Adds the validators of a plugin with a namespace. -/
def addValidators (space : String) (registry : Registry) :
    List (String × Validator) → Except Error Registry
  | [] => .ok registry
  | (key, validator) :: rest =>
    match validatorKind space key with
    | .ok kind =>
      addValidators space { registry with validators := registry.validators ++ [(kind, validator)] }
        rest
    | .error error => .error error

/-- Adds one plugin: its namespace is checked first, then its handlers and its validators are added. -/
def add (registry : Registry) (plugin : Plugin) : Except Error Registry := do
  checkSpace plugin.space
  let registry ← registry.addHandlers plugin.space plugin.handlers
  match plugin.space, plugin.validators with
  | _, [] => .ok registry
  | some space, validators => registry.addValidators space validators
  | none, _ => .error (.registration "plugin without namespace cannot register validators")

/-- The tables of an ordered list of plugins. -/
def build (plugins : List Plugin) : Except Error Registry :=
  plugins.foldlM add {}

/-- The handlers of a kind, in order of registration. -/
def handlersOf (registry : Registry) (kind : String) : List Handler :=
  (registry.handlers.filter fun entry => entry.1 = kind).map Prod.snd

/-- Whether a kind has handlers. -/
def hasHandlers (registry : Registry) (kind : String) : Bool :=
  !(registry.handlersOf kind).isEmpty

/-- The validator of a kind: the last one registered. -/
def validator? (registry : Registry) (kind : String) : Option Validator :=
  (registry.validators.reverse.find? fun entry => entry.1 = kind).map Prod.snd

/-- The distinct elements of a list of names, in increasing order. -/
def distinct (names : List String) : List String :=
  names.foldl insert []
where
  /-- Puts a name into an increasing list. -/
  insert : List String → String → List String
    | [], name => [name]
    | head :: rest, name =>
      if name < head then name :: head :: rest
      else if name = head then head :: rest
      else head :: insert rest name

/-- The written form of a registry: how many handlers each kind has, and how many kinds have a validator. -/
def written (registry : Registry) : String :=
  let kinds := distinct (registry.handlers.map Prod.fst)
  let row kind := "(" ++ Text.quoted kind ++ ", " ++ toString (registry.handlersOf kind).length ++ ")"
  Text.record "Registry"
    [("handlers", Text.listing (kinds.map row)),
      ("validators", toString (distinct (registry.validators.map Prod.fst)).length)]

/-- The first of some handlers that takes an operation, with its position; `position` is that of the first
one. -/
def firstAccepting (operation : Effect) (context : Context) :
    List Handler → Nat → Probe (Option (Nat × Handler))
  | [], _ => .done none
  | handler :: rest, position =>
    (handler.accepts operation context).bind fun accepted =>
      if accepted then .done (some (position, handler))
      else firstAccepting operation context rest (position + 1)

/-- The handler that services an operation, at the given position or later. -/
def select (registry : Registry) (operation : Effect) (context : Context) (first : Nat) :
    Probe (Option (Nat × Handler)) :=
  firstAccepting operation context ((registry.handlersOf operation.kind).drop first) first

/-- What a terminal operation may not wrap. -/
def terminalRefusal : Effect → Option Error
  | .terminal (.fork _) => some (.validation "terminal forks are forbidden")
  | .terminal (.defer _) => some (.validation "terminal defers are forbidden")
  | .terminal .recover => some (.validation "terminal recovers are forbidden")
  | .terminal (.terminal _) => some (.validation "terminals cannot be nested")
  | _ => none

/-- Checks one operation by itself: first the rule on terminal operations, then the validator of its kind. -/
def validateOne (registry : Registry) (operation : Effect) : Probe (Option Error) :=
  match terminalRefusal operation with
  | some error => .done (some error)
  | none =>
    match registry.validator? operation.kind with
    | some validator => validator operation
    | none => .done none

/-- Checks an effect and all it wraps, from the inside out.  A bare computation is not checked. -/
def validate (registry : Registry) (effect : Effect) : Probe (Option Error) :=
  match effect with
  | .bare _ => .done none
  | .fork inner | .start inner | .defer inner | .terminal inner | .next inner _ =>
    (registry.validate inner).bind fun
      | some error => .done (some error)
      | none => registry.validateOne effect
  | _ => registry.validateOne effect

end Registry
end EffectMachine
