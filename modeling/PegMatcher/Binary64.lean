/-
Binary64 numbers, each held as its bit pattern, so that every pattern is kept exactly:
zero has a sign, and patterns that stand for no number differ from one another in
their bits.

Numbers are compared as numbers.  The two zeros are the same, and what is not a number
is the same as nothing, itself included; `same_self_iff` says that nothing else is lost.
-/
namespace PegMatcher

structure Binary64 where
  bits : UInt64
  deriving DecidableEq

namespace Binary64

/-- The eleven bits below the sign. -/
def biasedExponent (x : Binary64) : Nat := x.bits.toNat / 0x10000000000000 % 0x800

def fraction (x : Binary64) : Nat := x.bits.toNat % 0x10000000000000

/-- The top bit is the sign. -/
def isNegative (x : Binary64) : Bool := x.bits.toNat ≥ 0x8000000000000000

/-- The greatest exponent with a fraction stands for no number. -/
def isNaN (x : Binary64) : Bool := x.biasedExponent = 0x7ff && x.fraction ≠ 0

/-- Zero of either sign. -/
def isZero (x : Binary64) : Bool := x.biasedExponent = 0 && x.fraction = 0

/-- Equality as numbers. -/
def same (x y : Binary64) : Bool :=
  !x.isNaN && !y.isNaN && (x = y || x.isZero && y.isZero)

/-- The positive number `mantissa · 2 ^ exponent`.  `narrow` marks the least mantissa
of a binade, where the distance to the neighbour below is half the distance to the one
above. -/
structure Positive where
  mantissa : Nat
  exponent : Int
  narrow : Bool

/-- What a bit pattern stands for, apart from its sign. -/
inductive Magnitude
  | notANumber
  | infinite
  | zero
  | finite (number : Positive)

/-- Exponent zero has no hidden bit. -/
def magnitude (x : Binary64) : Magnitude :=
  if x.biasedExponent = 0x7ff then
    if x.fraction = 0 then .infinite else .notANumber
  else if x.biasedExponent = 0 then
    if x.fraction = 0 then .zero else .finite ⟨x.fraction, -1074, false⟩
  else
    .finite ⟨x.fraction + 0x10000000000000, (x.biasedExponent : Int) - 1075,
      x.fraction = 0 && x.biasedExponent > 1⟩

theorem same_self_iff (x : Binary64) : x.same x = true ↔ x.isNaN = false := by
  simp [same]

theorem same_comm (x y : Binary64) : x.same y = y.same x := by
  by_cases h : x = y
  · rw [h]
  · have h' : ¬ y = x := fun e => h e.symm
    simp only [same, h, h', decide_false, Bool.false_or]
    rw [Bool.and_comm (!x.isNaN), Bool.and_comm x.isZero]

end Binary64
end PegMatcher
