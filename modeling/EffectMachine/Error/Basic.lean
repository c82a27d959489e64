import EffectMachine.Text.Record

/-!
# Errors

Everything that can go wrong while a machine is built or runs.  A user error keeps the identity it
was created with, so that two errors with one message stay apart; an aggregate carries the failures that
were seen while the error it wraps unwound a stack.

Main statements: `Error.same_refl`, `Error.same_symm` and `Error.same_trans` for the comparison of errors, and
`Error.primary_withErrors`, `Error.same_withErrors`: attaching errors changes neither the primary error nor what
the error is the same as.
-/

namespace EffectMachine

/-- What an application reported. -/
inductive Cause where
  /-- A plain message. -/
  | message (text : String)
  /-- A coded failure. -/
  | coded (code : Int)
  /-- The failures of the listeners of one lifecycle stage. -/
  | listeners (stage : String) (causes : List Cause)
  deriving Inhabited

namespace Cause

mutual

/-- The text of a cause. -/
def text : Cause → String
  | .message text => text
  | .coded code => "custom " ++ toString code
  | .listeners stage causes => "task " ++ stage ++ " failed: " ++ Text.separated (described causes)

/-- The text of each cause of a failed stage. -/
def described : List Cause → List String
  | [] => []
  | cause :: rest => ("caused by: " ++ cause.text) :: described rest

end

end Cause

/-- A failure raised by an application, with the identity it was created with. -/
structure UserError where
  identity : Nat
  cause : Cause
  deriving Inhabited

/-- An error of a machine. -/
inductive Error where
  /-- A plugin is malformed. -/
  | registration (reason : String)
  /-- An operation is structurally invalid. -/
  | validation (reason : String)
  /-- No handler and no core rule claims the kind of an operation. -/
  | unrecognized (kind : String)
  /-- A primitive of the machine was misused. -/
  | type (reason : String)
  /-- The stack was canceled before it settled. -/
  | cancelled
  /-- Raised by the application. -/
  | failed (error : UserError)
  /-- An error with the failures seen while unwinding. -/
  | aggregate (error : Error) (attached : List Error)
  deriving Inhabited

namespace Error

/-- The display text of an error. -/
def message : Error → String
  | .registration reason => "registration error: " ++ reason
  | .validation reason => "invalid operation: " ++ reason
  | .unrecognized kind => "unrecognized operation \"" ++ kind ++ "\""
  | .type reason => "type error: " ++ reason
  | .cancelled => "stack canceled"
  | .failed error => error.cause.text
  | .aggregate error attached =>
    error.message ++ " (" ++ toString attached.length ++ " more while unwinding)"

/-- The triggering error of an aggregate, and any other error itself. -/
def primary : Error → Error
  | .aggregate error _ => error.primary
  | error => error

/-- The errors attached while unwinding. -/
def attached : Error → List Error
  | .aggregate _ attached => attached
  | _ => []

/-- Whether the primary error is the mark of a cancellation. -/
def isCancellation (error : Error) : Bool :=
  match error.primary with
  | .cancelled => true
  | _ => false

/-- Whether two primary errors are the same: user errors by identity, others by kind and content. -/
def samePrimary : Error → Error → Bool
  | .failed a, .failed b => a.identity = b.identity
  | .cancelled, .cancelled => true
  | .registration a, .registration b => a = b
  | .validation a, .validation b => a = b
  | .unrecognized a, .unrecognized b => a = b
  | .type a, .type b => a = b
  | _, _ => false

/-- Whether two errors have the same primary error. -/
def same (a b : Error) : Bool :=
  samePrimary a.primary b.primary

/-- The cause of a user error, seen through aggregates. -/
def cause? (error : Error) : Option Cause :=
  match error.primary with
  | .failed error => some error.cause
  | _ => none

/-- The message of a user error made from a message. -/
def messageCause? (error : Error) : Option String :=
  match error.cause? with
  | some (.message text) => some text
  | _ => none

/-- The code of a coded user error. -/
def code? (error : Error) : Option Int :=
  match error.cause? with
  | some (.coded code) => some code
  | _ => none

/-- The error with further errors attached; without any it stays as it is. -/
def withErrors (error : Error) (errors : List Error) : Error :=
  if errors.isEmpty then error else .aggregate error errors

/-- A primary error is never an aggregate. -/
theorem primary_ne_aggregate (error inner : Error) (errors : List Error) :
    error.primary ≠ .aggregate inner errors := by
  induction error using primary.induct with
  | case1 error _ ih => simpa [primary] using ih
  | case2 error h =>
    intro contra
    cases error <;> simp_all [primary]

/-- Every error has the same primary error as itself. -/
theorem same_refl (error : Error) : error.same error = true := by
  have plain := primary_ne_aggregate error
  unfold same
  generalize error.primary = p at plain ⊢
  cases p <;> simp_all [samePrimary]

/-- Sameness does not depend on the order of its sides. -/
theorem same_symm (a b : Error) : a.same b = b.same a := by
  unfold same
  cases a.primary <;> cases b.primary <;> simp [samePrimary, eq_comm]

/-- Sameness is transitive. -/
theorem same_trans {a b c : Error} (first : a.same b = true) (second : b.same c = true) :
    a.same c = true := by
  unfold same at *
  generalize a.primary = p at *
  generalize b.primary = q at *
  generalize c.primary = r at *
  cases p <;> cases q <;> simp_all [samePrimary]
  cases r <;> simp_all

/-- Attaching errors keeps the primary error. -/
@[simp]
theorem primary_withErrors (error : Error) (errors : List Error) :
    (error.withErrors errors).primary = error.primary := by
  unfold withErrors
  split <;> simp [primary]

/-- Attaching errors keeps what the error is the same as. -/
theorem same_withErrors (error other : Error) (errors : List Error) :
    (error.withErrors errors).same other = error.same other := by
  simp [same]

end Error
end EffectMachine
