import EffectMachine.Program.Basic

/-!
# Kinds, payloads and written forms of effects

Every effect is dispatched under a kind.  A bare computation has the kind of the operation that runs it, and
`Effect.operation` makes that operation of it.
-/

namespace EffectMachine

namespace Kind

/-- The namespace of the core operations. -/
def core : String := "@cuillere/core"

/-- The namespace of the operations that run effects side by side. -/
def concurrent : String := "@cuillere/concurrent"

/-- The namespace of the operations that batch calls. -/
def batch : String := "@cuillere/batch"

def call : String := core ++ "/call"
def execute : String := core ++ "/execute"
def fork : String := core ++ "/fork"
def start : String := core ++ "/start"
def defer : String := core ++ "/defer"
def recover : String := core ++ "/recover"
def terminal : String := core ++ "/terminal"
def generator : String := core ++ "/generator"
def next : String := core ++ "/next"

/-- A kind is qualified when it starts with the mark of a namespace. -/
def isQualified (key : String) : Bool :=
  key.toList.head? = some '@'

/-- The kind of a key under a namespace. -/
def under (space key : String) : String :=
  space ++ "/" ++ key

end Kind

/-- The types of payloads. -/
inductive PayloadType where
  | unit
  | text
  | int
  | value
  | effects
  | batchCall
  deriving DecidableEq, Inhabited

/-- The name of a payload type. -/
def PayloadType.name : PayloadType → String
  | .unit => "()"
  | .text => "alloc::string::String"
  | .int => "i64"
  | .value => "cuillere::value::Value"
  | .effects => "cuillere::concurrent::ConcurrentOperation"
  | .batchCall => "cuillere::batch::BatchCall"

namespace Payload

/-- The type of a payload. -/
def type : Payload → PayloadType
  | .unit => .unit
  | .text _ => .text
  | .int _ => .int
  | .value _ => .value
  | .effects _ => .effects
  | .batchCall .. => .batchCall

/-- The payload that carries a value: absent values, texts and integers have types of their own. -/
def ofValue : Value → Payload
  | .null => .unit
  | .str s => .text s
  | .int n => .int n
  | other => .value other

/-- The value that a payload carries, if it carries one. -/
def value? : Payload → Option Value
  | .unit => some .null
  | .text s => some (.str s)
  | .int n => some (.int n)
  | .value inner => some inner
  | .effects _ | .batchCall .. => none

/-- A payload made of a value carries that value. -/
theorem value?_ofValue (value : Value) : (ofValue value).value? = some value := by
  cases value <;> rfl

end Payload

namespace Effect

/-- The kind under which an effect is dispatched. -/
def kind : Effect → String
  | .bare _ => Kind.execute
  | .call .. => Kind.call
  | .execute _ => Kind.execute
  | .fork _ => Kind.fork
  | .start _ => Kind.start
  | .defer _ => Kind.defer
  | .recover => Kind.recover
  | .terminal _ => Kind.terminal
  | .generator => Kind.generator
  | .next .. => Kind.next
  | .custom kind _ => kind

/-- Whether an effect is an operation, and no bare computation. -/
def isOperation : Effect → Bool
  | .bare _ => false
  | _ => true

/-- The operation that an effect stands for. -/
def operation : Effect → Effect
  | .bare computation => .execute computation
  | effect => effect

/-- The effect that an operation wraps. -/
def wrapped? : Effect → Option Effect
  | .fork effect | .start effect | .defer effect | .terminal effect | .next effect _ => some effect
  | _ => none

/-- The kinds of the effects an operation wraps, from the outside in. -/
def wrappedKinds : Effect → List String
  | .fork effect | .start effect | .defer effect | .terminal effect | .next effect _ =>
    effect.kind :: effect.wrappedKinds
  | _ => []

/-- The payload of an operation of a plugin. -/
def payload? : Effect → Option Payload
  | .custom _ payload => some payload
  | _ => none

/-- The value that an operation carries, if it carries one. -/
def value? (effect : Effect) : Option Value :=
  effect.payload?.bind Payload.value?

/-- The payload of an operation, which has to be of the expected type. -/
def intoPayload (expected : PayloadType) : Effect → Except Error Payload
  | .custom kind payload =>
    if payload.type = expected then .ok payload
    else .error (.type ("operation \"" ++ kind ++ "\" carries " ++ payload.type.name ++ ", expected "
      ++ expected.name))
  | effect => .error (.type ("core operation \"" ++ effect.kind ++ "\" has no plugin payload"))

/-- The written form of an effect, given which tasks have settled. -/
def written (isSettled : TaskId → Bool) : Effect → String
  | .bare computation => computation.written
  | .call function args =>
    Text.record "Call"
      [("func", Text.variant "Function" [Text.quoted function.name]),
        ("args", Text.listing (args.map (Value.written isSettled)))]
  | .next effect inPlace =>
    Text.record "Next"
      [("effect", effect.written isSettled), ("terminal", if inPlace then "true" else "false")]
  | .custom kind payload =>
    Text.record "Custom" [("kind", Text.quoted kind), ("payload", Text.quoted payload.type.name)]
  | .fork effect => Text.variant Kind.fork [effect.written isSettled]
  | .start effect => Text.variant Kind.start [effect.written isSettled]
  | .defer effect => Text.variant Kind.defer [effect.written isSettled]
  | .terminal effect => Text.variant Kind.terminal [effect.written isSettled]
  | .execute _ => Kind.execute
  | .recover => Kind.recover
  | .generator => Kind.generator

/-- An effect and the operation it stands for have one kind. -/
@[simp]
theorem kind_operation (effect : Effect) : effect.operation.kind = effect.kind := by
  cases effect <;> rfl

end Effect
end EffectMachine
