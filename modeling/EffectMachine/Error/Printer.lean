import EffectMachine.Error.Basic

/-!
# The written form of errors

An error is written as its kind with its content in round brackets: texts quoted, a user error by
its bare message, an aggregate as a record of the error it wraps and the list of attached ones.
-/

namespace EffectMachine
namespace Error

/-- The name of an error's kind. -/
def kindName : Error → String
  | .registration _ => "Registration"
  | .validation _ => "Validation"
  | .unrecognized _ => "UnrecognizedOperation"
  | .type _ => "Type"
  | .cancelled => "Cancelled"
  | .failed _ => "Failed"
  | .aggregate _ _ => "Aggregate"

mutual

/-- The written form of an error. -/
def written : Error → String
  | .registration reason => Text.variant "Registration" [Text.quoted reason]
  | .validation reason => Text.variant "Validation" [Text.quoted reason]
  | .unrecognized kind => Text.variant "UnrecognizedOperation" [Text.quoted kind]
  | .type reason => Text.variant "Type" [Text.quoted reason]
  | .cancelled => "Cancelled"
  | .failed error => Text.variant "Failed" [error.cause.text]
  | .aggregate error attached =>
    Text.record "Aggregate" [("error", error.written), ("errors", Text.listing (writtenAll attached))]

/-- The written forms of attached errors. -/
def writtenAll : List Error → List String
  | [] => []
  | error :: rest => error.written :: writtenAll rest

end

end Error
end EffectMachine
