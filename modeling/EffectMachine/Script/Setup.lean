import EffectMachine.Batch.Plugin
import EffectMachine.Lifecycle.Manager
import EffectMachine.Machine.Basic
import EffectMachine.Plugin.Middleware
import EffectMachine.Script.Condition
import EffectMachine.Script.Evaluation

/-!
# Scripted machines

How the functions and plugins of a machine are described, and how the machine is built from their
descriptions.  Every machine has a batch plugin and the plugin that runs effects side by side, after all others.
-/

namespace EffectMachine
namespace Script

/-- How a batched function groups its calls. -/
inductive Grouping where
  /-- All calls share one group. -/
  | together
  /-- The key is one of the arguments. -/
  | byArgument (index : Nat)
  /-- All calls have one key. -/
  | constant (key : Literal)

/-- The key of a call. -/
def Grouping.key : Grouping → List Value → Option BatchKey
  | .together, _ => some (.bool true)
  | .byArgument index, args => args[index]?.bind BatchKey.ofValue?
  | .constant literal, _ => BatchKey.ofValue? (literal.build 0).1

/-- What a function does. -/
inductive Definition where
  /-- It evaluates an expression; the computation may have a name. -/
  | scripted (body : Expression) (name : Option String)
  /-- It batches the calls of a function defined before. -/
  | batched (function : String) (grouping : Grouping)

/-- The functions of some definitions, in order, by the names they were defined under.  A batched function has
the name of the function it batches. -/
def functionsOf (definitions : List (String × Definition)) : List (String × Function) :=
  (definitions.foldl add ([], 0)).1
where
  /-- Adds one definition. -/
  add (state : List (String × Function) × Nat) (definition : String × Definition) :
      List (String × Function) × Nat :=
    let (functions, index) := state
    let name := match definition.2 with
      | .scripted .. => definition.1
      | .batched inner _ =>
        ((functions.find? fun entry => entry.1 = inner).map fun entry => entry.2.name).getD inner
    (functions ++ [(definition.1, ⟨index, name⟩)], index + 1)

/-- The library of some definitions. -/
def libraryOf (definitions : List (String × Definition)) : Library where
  body function args :=
    let functions := functionsOf definitions
    match definitions[function.index]? with
    | some (_, .scripted body name) => ⟨name, body.body { functions, args }⟩
    | some (_, .batched inner grouping) =>
      match functions.find? fun entry => entry.1 = inner with
      | some (_, batched) => Batch.computation function.index batched (grouping.key args) args
      | none => default
    | none => default

/-- A scripted handler. -/
structure HandlerScript where
  key : String
  body : Expression
  name : Option String := none
  filter : Condition := .constant true

/-- The handler of a script.  It evaluates its body in the scope of the operation it services. -/
def HandlerScript.handler (script : HandlerScript) (functions : List (String × Function)) : Handler where
  accepts operation context := script.filter.ask operation (some context.value)
  handle operation context :=
    ⟨script.name,
      script.body.body { functions, context := context.value, handled := some operation }⟩

/-- A scripted validator. -/
structure ValidatorScript where
  key : String
  rejects : Condition
  error : ErrorLiteral

/-- The validator of a script. -/
def ValidatorScript.validator (script : ValidatorScript) : Validator := fun operation =>
  (script.rejects.ask operation none).bind fun rejected =>
    if !rejected then .done none
    else if script.error.identities = 0 then .done (some (script.error.build 0).1)
    else .mint script.error.identities fun identity => .done (some (script.error.build identity).1)

/-- A scripted listener, which logs what it is told; stages may take time or fail. -/
structure ListenerScript where
  name : String
  failures : List (String × Cause) := []
  delays : List (String × Nat) := []

namespace ListenerScript

/-- The hook of one stage. -/
def hook (script : ListenerScript) (stage : String) (about : Outcome) : Hook :=
  let ending : Hook := .finish (script.failures.lookup stage)
  .log (.told script.name stage about) <|
    match script.delays.lookup stage with
    | some delay => .pause delay (.log (.told script.name stage (.ok (.str "slept"))) ending)
    | none => ending

/-- The listener of a script. -/
def listener (script : ListenerScript) : Listener where
  prepare context := script.hook "initialize" (.ok context.value)
  preComplete value := script.hook "pre_complete" (.ok value)
  complete value := script.hook "complete" (.ok value)
  error error := script.hook "error" (.error error)
  finalize
    | some error => script.hook "finalize" (.error error)
    | none => script.hook "finalize" (.ok .null)

end ListenerScript

/-- The description of a plugin. -/
inductive PluginScript where
  | handlers (space : Option String) (handlers : List HandlerScript) (validators : List ValidatorScript)
  | metrics (kinds : List String)
  | trace (kinds : List String)
  | batch (window : Nat)
  /-- A manager with its listeners, possibly for some contexts only. -/
  | manager (listeners : List (Option ListenerScript)) (only : Option (List Literal))

namespace PluginScript

/-- The manager of some listeners; one without a script has default hooks. -/
def managerOf (listeners : List (Option ListenerScript)) : Manager where
  listeners := listeners.map fun
    | some script => script.listener
    | none => {}

/-- The plugin of a description; `index` sets the plugins of one machine apart. -/
def plugin (functions : List (String × Function)) (index : Nat) : PluginScript → Plugin
  | .handlers space handling validating =>
    { space
      handlers := handling.map fun script => (script.key, script.handler functions)
      validators := validating.map fun script => (script.key, script.validator) }
  | .metrics kinds => Middleware.metrics index kinds
  | .trace kinds => Middleware.trace kinds
  | .batch window => Batch.plugin index window
  | .manager listeners only =>
    Manager.plugin fun context =>
      if only.all fun literals => literals.any fun literal => (literal.build 0).1.equal context.value
      then some (managerOf listeners)
      else none

/-- What is written to the log when a plugin is made. -/
def announcement : PluginScript → List Entry
  | .manager listeners _ => [.note (.str (managerOf listeners).written)]
  | _ => []

/-- Whether a plugin counts operations. -/
def isMeter : PluginScript → Bool
  | .metrics _ => true
  | _ => false

end PluginScript

/-- The description of a machine. -/
structure Setup where
  definitions : List (String × Definition) := []
  plugins : List PluginScript := []
  /-- The window of the batch plugin that every machine has. -/
  window : Nat := 0

namespace Setup

/-- The functions of a setup, by the names they were defined under. -/
def functions (setup : Setup) : List (String × Function) :=
  functionsOf setup.definitions

/-- The plugins that were asked for. -/
def ownPlugins (setup : Setup) : List Plugin :=
  setup.plugins.mapIdx fun index script => script.plugin setup.functions index

/-- All plugins: those that were asked for, then those that every machine has. -/
def allPlugins (setup : Setup) : List Plugin :=
  setup.ownPlugins ++ [Batch.plugin setup.plugins.length setup.window, Concurrent.plugin]

/-- The machine of a setup. -/
def machine (setup : Setup) : Except Error Machine :=
  (Registry.build setup.allPlugins).map fun registry =>
    { registry, library := libraryOf setup.definitions }

/-- What is written to the log while the machine is built. -/
def announcements (setup : Setup) : List Entry :=
  setup.plugins.flatMap PluginScript.announcement

/-- The meters of a setup, in order. -/
def meters (setup : Setup) : List Nat :=
  (setup.plugins.zipIdx.filter fun entry => entry.1.isMeter).map Prod.snd

/-- The written form of a machine up to its registry, or the reason it cannot be built. -/
def written (setup : Setup) : Except Error String :=
  (Registry.build setup.allPlugins).map fun registry =>
    "Runtime \x7b registry: " ++ registry.written

end Setup
end Script
end EffectMachine
