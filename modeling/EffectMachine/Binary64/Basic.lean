/-!
# Binary floating-point numbers of 64 bits

A number is its sign, exponent and fraction bits.  Comparison follows the standard for such numbers:
a not-a-number equals nothing, and the two zeros are equal.  Main statements: `Binary64.equal_symm`,
`Binary64.equal_trans` and `Binary64.equal_self_iff`.
-/

namespace EffectMachine

/-- A binary floating-point number, given by its bits. -/
structure Binary64 where
  bits : UInt64
  deriving DecidableEq, Inhabited

namespace Binary64

/-- A power of two. -/
def binaryUnit (n : Nat) : Nat :=
  Nat.pow 2 n

/-- The bits as a natural number below `2 ^ 64`. -/
def code (x : Binary64) : Nat :=
  x.bits.toNat

/-- The sign bit: true for a negative number. -/
def negative (x : Binary64) : Bool :=
  x.code / binaryUnit 63 = 1

/-- The eleven exponent bits. -/
def exponentBits (x : Binary64) : Nat :=
  x.code / binaryUnit 52 % binaryUnit 11

/-- The fifty-two fraction bits. -/
def fractionBits (x : Binary64) : Nat :=
  x.code % binaryUnit 52

/-- A not-a-number has the largest exponent and some fraction. -/
def isNaN (x : Binary64) : Bool :=
  x.exponentBits = 2047 && x.fractionBits ≠ 0

/-- An infinity has the largest exponent and no fraction. -/
def isInfinite (x : Binary64) : Bool :=
  x.exponentBits = 2047 && x.fractionBits = 0

/-- Zero, of either sign. -/
def isZero (x : Binary64) : Bool :=
  x.exponentBits = 0 && x.fractionBits = 0

/-- Numeric equality. -/
def equal (x y : Binary64) : Bool :=
  !x.isNaN && !y.isNaN && (x.bits = y.bits || (x.isZero && y.isZero))

/-- The not-a-number that stands for all of them. -/
def nan : Binary64 :=
  ⟨0x7ff8000000000000⟩

/-- Every not-a-number becomes `nan`; other numbers stay as they are. -/
def canonical (x : Binary64) : Binary64 :=
  if x.isNaN then nan else x

/-- The code of the positive number nearest to a positive natural number, ties to even.  The carry of
a significand rounded up to `2 ^ 53` moves into the exponent by itself. -/
def codeOfNat (n : Nat) : Nat :=
  if n = 0 then 0
  else
    let order := n.log2
    let significand :=
      if order ≤ 52 then n * binaryUnit (52 - order)
      else
        let unit := binaryUnit (order - 52)
        let below := n / unit
        let rest := n % unit
        if 2 * rest > unit || (2 * rest = unit && below % 2 = 1) then below + 1 else below
    (order + 1022) * binaryUnit 52 + significand

/-- The number nearest to an integer, ties to even. -/
def ofInt (n : Int) : Binary64 :=
  ⟨UInt64.ofNat ((if n < 0 then binaryUnit 63 else 0) + codeOfNat n.natAbs)⟩

/-- A number equals itself unless it is a not-a-number. -/
theorem equal_self_iff (x : Binary64) : x.equal x = true ↔ x.isNaN = false := by
  simp [equal]

/-- Numeric equality does not depend on the order of its sides. -/
theorem equal_symm (x y : Binary64) : x.equal y = y.equal x := by
  simp only [equal, eq_comm (a := x.bits), Bool.and_comm x.isZero]
  rw [Bool.and_comm (!x.isNaN)]

/-- Numeric equality is transitive. -/
theorem equal_trans {x y z : Binary64} (first : x.equal y = true) (second : y.equal z = true) :
    x.equal z = true := by
  obtain ⟨a⟩ := x
  obtain ⟨b⟩ := y
  obtain ⟨c⟩ := z
  simp only [equal, Bool.and_eq_true, Bool.or_eq_true, decide_eq_true_eq,
    Bool.not_eq_true'] at first second ⊢
  obtain ⟨⟨hx, _⟩, same | zero⟩ := first
  · subst same
    exact second
  · obtain ⟨⟨_, hz⟩, same | zero'⟩ := second
    · subst same
      exact ⟨⟨hx, hz⟩, Or.inr zero⟩
    · exact ⟨⟨hx, hz⟩, Or.inr ⟨zero.1, zero'.2⟩⟩

end Binary64
end EffectMachine
