import Mathlib.Data.List.Forall2
import EffectMachine.Value.Basic

/-!
# The equality of values and of errors

Errors are compared by what triggered them, which is an equivalence.  Values are compared by content, and what cannot be
looked into by identity; that is an equivalence but for numbers that do not equal themselves.

* `Value.parts` are the values that a comparison looks into, and `Value.induct` is the induction over them.
* `Value.Contains` says that a value occurs in another one, at any depth.
* `Value.equal_self_iff` says which values equal themselves.
* `equality_laws` puts together what holds of the two comparisons.
-/

namespace EffectMachine
namespace Error

/-- Attached errors make no difference on either side of a comparison. -/
theorem same_withErrors_right (error other : Error) (errors : List Error) :
    other.same (error.withErrors errors) = other.same error := by
  rw [same_symm, same_withErrors, same_symm]

/-- Attached errors do not change whether an error is a cancellation. -/
theorem isCancellation_withErrors (error : Error) (errors : List Error) :
    (error.withErrors errors).isCancellation = error.isCancellation := by
  unfold isCancellation
  rw [primary_withErrors]

/-- Attached errors do not change what an application reported. -/
theorem cause?_withErrors (error : Error) (errors : List Error) : (error.withErrors errors).cause? = error.cause? := by
  unfold cause?
  rw [primary_withErrors]

end Error

namespace Value

/-! ## What a value is made of -/

/-- The values that a comparison looks into: the items of a list, the values of a table, and what a task ended well
with. -/
def parts : Value → List Value
  | .list items => items
  | .map entries => entries.map Prod.snd
  | .fulfilled value => [value]
  | _ => []

/-- A value occurs in itself, and wherever one of its parts occurs. -/
inductive Contains : Value → Value → Prop
  | self (value : Value) : Contains value value
  | part {value part inner : Value} (hpart : part ∈ value.parts) (hinner : part.Contains inner) : Contains value inner

theorem sizeOf_lt_of_mem_parts {value part : Value} (hpart : part ∈ value.parts) : sizeOf part < sizeOf value := by
  cases value with
  | list items =>
      have hless := List.sizeOf_lt_of_mem (show part ∈ items from hpart)
      simp only [list.sizeOf_spec]
      omega
  | map entries =>
      obtain ⟨⟨key, value⟩, hmem, rfl⟩ := List.mem_map.1 hpart
      have hless := List.sizeOf_lt_of_mem hmem
      simp only [map.sizeOf_spec, Prod.mk.sizeOf_spec] at hless ⊢
      omega
  | fulfilled value =>
      obtain rfl := List.mem_singleton.1 hpart
      simp
  | _ => cases hpart

/-- What holds of a value whenever it holds of its parts holds of all values. -/
@[elab_as_elim]
theorem induct {motive : Value → Prop} (whole : ∀ value, (∀ part ∈ value.parts, motive part) → motive value)
    (value : Value) : motive value :=
  whole value fun part hpart =>
    have := sizeOf_lt_of_mem_parts hpart
    induct whole part
termination_by sizeOf value

/-! ## Outlines -/

/-- Compares two values by all but their parts. -/
def sameOutline : Value → Value → Bool
  | .null, .null => true
  | .bool a, .bool b => a = b
  | .int a, .int b => a = b
  | .float a, .float b => a.equal b
  | .str a, .str b => a = b
  | .list _, .list _ => true
  | .map a, .map b => a.map Prod.fst = b.map Prod.fst
  | .task a, .task b => a = b
  | .error a, .error b => a.same b
  | .fulfilled _, .fulfilled _ => true
  | .rejected a, .rejected b => a.same b
  | .object a, .object b => a = b
  | _, _ => false

theorem sameOutline_symm (value other : Value) : value.sameOutline other = other.sameOutline value := by
  cases value <;> cases other <;> first
    | rfl
    | exact Binary64.equal_symm _ _
    | exact Error.same_symm _ _
    | exact decide_eq_decide.2 eq_comm

theorem sameOutline_trans {value other third : Value} (hfirst : value.sameOutline other = true)
    (hsecond : other.sameOutline third = true) : value.sameOutline third = true := by
  cases value <;> cases other <;> first
    | exact absurd hfirst Bool.false_ne_true
    | cases third <;> first
    | rfl
    | exact absurd hsecond Bool.false_ne_true
    | exact Binary64.equal_trans hfirst hsecond
    | exact Error.same_trans hfirst hsecond
    | exact decide_eq_true ((of_decide_eq_true hfirst).trans (of_decide_eq_true hsecond))

theorem sameOutline_self_iff (value : Value) :
    value.sameOutline value = true ↔ ∀ x, value = .float x → x.isNaN = false := by
  cases value with
  | float x => simp [sameOutline, Binary64.equal_self_iff]
  | error error | rejected error => simp [sameOutline, Error.same_refl]
  | _ => simp [sameOutline]

/-- Lists are equal when their items are, one by one. -/
theorem equalItems_iff {items others : List Value} :
    equalItems items others = true ↔ List.Forall₂ (fun item other => item.equal other = true) items others := by
  induction items generalizing others with
  | nil => cases others <;> simp [equalItems]
  | cons item items ih => cases others <;> simp [equalItems, ih]

/-- Tables are equal when their keys and their values are, one by one. -/
theorem equalEntries_iff {entries others : List (String × Value)} :
    equalEntries entries others = true ↔ entries.map Prod.fst = others.map Prod.fst ∧
      List.Forall₂ (fun value other => value.equal other = true) (entries.map Prod.snd) (others.map Prod.snd) := by
  induction entries generalizing others with
  | nil => cases others <;> simp [equalEntries]
  | cons entry entries ih =>
      cases others with
      | nil => simp [equalEntries]
      | cons other others => simp [equalEntries, ih, and_assoc, and_left_comm]

/-- Values are equal when they have one outline and their parts are equal, one by one. -/
theorem equal_iff (value other : Value) :
    value.equal other = true ↔ value.sameOutline other = true ∧
      List.Forall₂ (fun part other => part.equal other = true) value.parts other.parts := by
  cases value <;> cases other <;>
    simp [equal, sameOutline, parts, equalItems_iff, equalEntries_iff]

/-! ## The laws -/

/-- What equals a value is equalled by it. -/
theorem equal_of_equal {value other : Value} (hequal : value.equal other = true) : other.equal value = true := by
  induction value using induct generalizing other with
  | whole value ih =>
      obtain ⟨houtline, hparts⟩ := (equal_iff value other).1 hequal
      obtain ⟨hlength, hparts⟩ := List.forall₂_iff_get.1 hparts
      refine (equal_iff other value).2 ⟨(sameOutline_symm other value).trans houtline, ?_⟩
      refine List.forall₂_iff_get.2 ⟨hlength.symm, fun place hother hvalue => ?_⟩
      exact ih _ (List.get_mem _ _) (hparts place hvalue hother)

/-- Equality does not depend on the order of its sides. -/
theorem equal_comm (value other : Value) : value.equal other = other.equal value :=
  Bool.eq_iff_iff.2 ⟨equal_of_equal, equal_of_equal⟩

/-- Equality passes on. -/
theorem equal_chain {value other third : Value} (hfirst : value.equal other = true)
    (hsecond : other.equal third = true) : value.equal third = true := by
  induction value using induct generalizing other third with
  | whole value ih =>
      obtain ⟨houtline, hparts⟩ := (equal_iff value other).1 hfirst
      obtain ⟨houtline', hparts'⟩ := (equal_iff other third).1 hsecond
      obtain ⟨hlength, hparts⟩ := List.forall₂_iff_get.1 hparts
      obtain ⟨hlength', hparts'⟩ := List.forall₂_iff_get.1 hparts'
      refine (equal_iff value third).2 ⟨sameOutline_trans houtline houtline', ?_⟩
      refine List.forall₂_iff_get.2 ⟨hlength.trans hlength', fun place hvalue hthird => ?_⟩
      have hother : place < other.parts.length := hlength ▸ hvalue
      exact ih _ (List.get_mem _ _) (hparts place hvalue hother) (hparts' place hother hthird)

theorem contains_iff {value inner : Value} :
    value.Contains inner ↔ inner = value ∨ ∃ part ∈ value.parts, part.Contains inner := by
  constructor
  · intro hcontains
    cases hcontains with
    | self => exact .inl rfl
    | part hpart hinner => exact .inr ⟨_, hpart, hinner⟩
  · rintro (rfl | ⟨part, hpart, hinner⟩)
    · exact .self _
    · exact .part hpart hinner

/-- A value equals itself unless a number that is none occurs in it. -/
theorem equal_self_iff (value : Value) :
    value.equal value = true ↔ ∀ x, value.Contains (.float x) → x.isNaN = false := by
  induction value using induct with
  | whole value ih =>
      rw [equal_iff, sameOutline_self_iff, List.forall₂_same]
      constructor
      · rintro ⟨hnumber, hparts⟩ x hcontains
        rcases contains_iff.1 hcontains with hself | ⟨part, hpart, hinner⟩
        · exact hnumber x hself.symm
        · exact (ih part hpart).1 (hparts part hpart) x hinner
      · intro hnumbers
        refine ⟨fun x hself => hnumbers x (hself ▸ .self _), fun part hpart => (ih part hpart).2 fun x hinner => ?_⟩
        exact hnumbers x (.part hpart hinner)

end Value

/-- Two errors that nothing tells apart but what is attached to them. -/
structure Error.TriggeredAlike (error other : Error) : Prop where
  primary : error.primary = other.primary
  cancellation : error.isCancellation = other.isCancellation
  /-- Taken as what an application reported, they are the same. -/
  cause : error.cause? = other.cause? ∧ error.messageCause? = other.messageCause? ∧ error.code? = other.code?
  /-- They are the same as the same errors, from either side. -/
  same : ∀ third, error.same third = other.same third ∧ third.same error = third.same other

/-- Attached errors make no difference. -/
theorem Error.triggeredAlike_withErrors (error : Error) (errors : List Error) :
    (error.withErrors errors).TriggeredAlike error where
  primary := primary_withErrors error errors
  cancellation := isCancellation_withErrors error errors
  cause := by
    have hcause := cause?_withErrors error errors
    refine ⟨hcause, ?_, ?_⟩
    · rw [messageCause?, hcause, messageCause?]
    · rw [code?, hcause, code?]
  same := fun third => ⟨same_withErrors error third errors, same_withErrors_right error third errors⟩

/-- The comparison of errors is an equivalence, and errors that are attached to one do not show in it.  The comparison of
values is symmetric and transitive, and a value equals itself exactly if no number that is none occurs in it. -/
theorem equality_laws :
    (Equivalence fun error other : Error => error.same other = true) ∧
    (∀ (error : Error) (errors : List Error), (error.withErrors errors).TriggeredAlike error) ∧
    (∀ value other : Value, value.equal other = other.equal value) ∧
    (∀ value other third : Value, value.equal other = true → other.equal third = true → value.equal third = true) ∧
    ∀ value : Value, value.equal value = true ↔ ∀ x, value.Contains (.float x) → x.isNaN = false := by
  refine ⟨⟨Error.same_refl, ?_, Error.same_trans⟩, Error.triggeredAlike_withErrors, Value.equal_comm,
    fun value other third => Value.equal_chain, Value.equal_self_iff⟩
  intro error other hsame
  exact (Error.same_symm other error).trans hsame

/-- Two tables that differ in the sign of a zero, and in what is attached to an error. -/
def signedZeros (sign : UInt64) (errors : List Error) : Value :=
  .map [("amount", .fulfilled (.list [.float ⟨sign <<< 63⟩])),
    ("reason", .error ((Error.cancelled.withErrors errors).withErrors errors))]

theorem equality_laws_zeros :
    (signedZeros 0 []).equal (signedZeros 1 [.type "late"]) = true ∧
      (signedZeros 1 [.type "late"]).equal (signedZeros 0 [.cancelled]) = true ∧
      (signedZeros 0 []).equal (signedZeros 0 [.cancelled]) = true :=
  have hfirst : (signedZeros 0 []).equal (signedZeros 1 [.type "late"]) = true := by decide
  have hsecond : (signedZeros 1 [.type "late"]).equal (signedZeros 0 [.cancelled]) = true := by decide
  ⟨hfirst, hsecond, equality_laws.2.2.2.1 _ _ _ hfirst hsecond⟩

end EffectMachine
