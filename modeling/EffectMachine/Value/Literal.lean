import EffectMachine.Value.Basic

/-!
# Literals

A literal is written once and evaluated any number of times.  A fresh user error inside it gets a new
identity at every evaluation, so `build` is given the next free identity and returns the one after the last it
used.
-/

namespace EffectMachine

/-- An error as a literal. -/
inductive ErrorLiteral where
  /-- An error that is the same at every evaluation. -/
  | known (error : Error)
  /-- A user error that is new at every evaluation. -/
  | fresh (cause : Cause)
  /-- An error with attached ones. -/
  | aggregate (error : ErrorLiteral) (attached : List ErrorLiteral)
  deriving Inhabited

/-- A value as a literal. -/
inductive Literal where
  /-- A value that holds no fresh error. -/
  | plain (value : Value)
  | list (items : List Literal)
  | map (entries : List (String × Literal))
  | error (error : ErrorLiteral)
  | fulfilled (value : Literal)
  | rejected (error : ErrorLiteral)
  deriving Inhabited

namespace ErrorLiteral

mutual

/-- The error of a literal, with identities from `next` on. -/
def build : ErrorLiteral → Nat → Error × Nat
  | .known error, next => (error, next)
  | .fresh cause, next => (.failed ⟨next, cause⟩, next + 1)
  | .aggregate error attached, next =>
    let (error, next) := error.build next
    let (attached, next) := buildAll attached next
    (.aggregate error attached, next)

/-- The errors of several literals, one after another. -/
def buildAll : List ErrorLiteral → Nat → List Error × Nat
  | [], next => ([], next)
  | literal :: rest, next =>
    let (error, next) := literal.build next
    let (errors, next) := buildAll rest next
    (error :: errors, next)

end

/-- How many identities one evaluation uses. -/
def identities (literal : ErrorLiteral) : Nat :=
  (literal.build 0).2

end ErrorLiteral

namespace Literal

mutual

/-- The value of a literal, with identities from `next` on. -/
def build : Literal → Nat → Value × Nat
  | .plain value, next => (value, next)
  | .list items, next =>
    let (values, next) := buildItems items next
    (.list values, next)
  | .map entries, next =>
    let (values, next) := buildEntries entries next
    (.tableOf values, next)
  | .error literal, next =>
    let (reason, next) := literal.build next
    (.error reason, next)
  | .fulfilled literal, next =>
    let (value, next) := build literal next
    (.fulfilled value, next)
  | .rejected literal, next =>
    let (reason, next) := literal.build next
    (.rejected reason, next)

/-- The values of the items of a list, from left to right. -/
def buildItems : List Literal → Nat → List Value × Nat
  | [], next => ([], next)
  | literal :: rest, next =>
    let (value, next) := build literal next
    let (values, next) := buildItems rest next
    (value :: values, next)

/-- The values of the entries of a table, from left to right. -/
def buildEntries : List (String × Literal) → Nat → List (String × Value) × Nat
  | [], next => ([], next)
  | (key, literal) :: rest, next =>
    let (value, next) := build literal next
    let (values, next) := buildEntries rest next
    ((key, value) :: values, next)

end

/-- How many identities one evaluation uses. -/
def identities (literal : Literal) : Nat :=
  (literal.build 0).2

end Literal
end EffectMachine
