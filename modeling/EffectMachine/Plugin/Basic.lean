import EffectMachine.Context
import EffectMachine.Plugin.Probe
import EffectMachine.Program.Effect

/-!
# Plugins

A plugin contributes handlers and validators, each under a key.  Keys without the mark of a namespace
belong to the namespace of the plugin.
-/

namespace EffectMachine

/-- Services the operations of one kind. -/
structure Handler where
  /-- Whether the handler takes an operation; if not, the next one of the kind is asked. -/
  accepts : Effect → Context → Probe Bool
  /-- The computation that services an operation. -/
  handle : Effect → Context → Computation

/-- A handler that takes every operation. -/
def Handler.ofHandle (handle : Effect → Context → Computation) : Handler where
  accepts _ _ := .done true
  handle := handle

/-- Checks an operation before it is dispatched; the answer is the error it is rejected with, if any. -/
abbrev Validator := Effect → Probe (Option Error)

/-- Handlers and validators, possibly under a namespace, in order of registration. -/
structure Plugin where
  space : Option String := none
  handlers : List (String × Handler) := []
  validators : List (String × Validator) := []

namespace Plugin

/-- The written form of a plugin shows its keys. -/
def written (plugin : Plugin) : String :=
  Text.record "Plugin"
    [("namespace", Text.optional (plugin.space.map Text.quoted)),
      ("handlers", Text.listing (plugin.handlers.map fun handler => Text.quoted handler.1)),
      ("validators", Text.listing (plugin.validators.map fun validator => Text.quoted validator.1))]

/-- A plugin without a namespace that services several kinds in one way. -/
def intercepting (kinds : List String) (handle : Effect → Context → Computation) : Plugin where
  handlers := kinds.map fun kind => (kind, .ofHandle handle)

end Plugin
end EffectMachine
