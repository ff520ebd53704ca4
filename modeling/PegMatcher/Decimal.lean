import PegMatcher.Binary64
/-
Numbers in decimal.

Integers are written most significant digit first, with a minus sign on negative numbers and
nothing on the others.

A binary64 number is written with the fewest digits that read back.  A positive number is
`mantissa · 2 ^ exponent`.  The reals that round to it form an interval around it; its ends
belong to the interval exactly when the mantissa is even, because ties go to the even
neighbour.  The grids `10 ^ k`, `10 ^ (k-1)`, … are tried from the leading digit downwards: if
any point of a grid lies in the interval, one of the two grid points next to the number does,
so looking at these two on each grid finds the least number of digits.
-/
namespace PegMatcher
namespace Decimal

/-! ## Integers -/

def ofNat (n : Nat) : String := String.ofList (Nat.toDigits 10 n)

def ofInt : Int → String
  | .ofNat n => ofNat n
  | .negSucc n => "-" ++ ofNat (n + 1)

/-! ## The shortest digits -/

/-- The number `coefficient · 10 ^ exponent`. -/
structure Digits where
  coefficient : Nat
  exponent : Int

end Decimal

namespace Binary64
namespace Positive

open Decimal

/-- Weights `(a, b)` such that `t · 10 ^ k` and `x` quarter units of the last
place compare as `t * a` and `x * b`. -/
def weights (n : Positive) (k : Int) : Nat × Nat :=
  let unit := n.exponent - 2
  (Nat.pow 10 k.toNat * Nat.pow 2 (-unit).toNat, Nat.pow 2 unit.toNat * Nat.pow 10 (-k).toNat)

/-- The number itself, in quarter units of the last place. -/
def center (n : Positive) : Nat := 4 * n.mantissa

/-- The lower end of the interval that rounds to the number. -/
def lower (n : Positive) : Nat := n.center - (if n.narrow then 1 else 2)

/-- The upper end of the interval that rounds to the number. -/
def upper (n : Positive) : Nat := n.center + 2

/-- Whether the grid point `t · 10 ^ k` reads back as the number. -/
def readsBack (n : Positive) (k : Int) (t : Nat) : Bool :=
  let (a, b) := n.weights k
  if n.mantissa % 2 = 0 then n.lower * b ≤ t * a && t * a ≤ n.upper * b
  else n.lower * b < t * a && t * a < n.upper * b

/-- The grid point of `10 ^ k` at or just below the number. -/
def below (n : Positive) (k : Int) : Nat :=
  let (a, b) := n.weights k
  n.center * b / a

/-- The coefficient of the grid `10 ^ k` that reads back as the number, if there
is one; the nearer of two, and the upper one when both are equally near. -/
def onGrid (n : Positive) (k : Int) : Option Nat :=
  let (a, b) := n.weights k
  let t := n.below k
  if n.readsBack k t then
    if n.readsBack k (t + 1) && (t + 1) * a - n.center * b ≤ n.center * b - t * a then
      some (t + 1)
    else some t
  else if n.readsBack k (t + 1) then some (t + 1)
  else none

/-- The exponent of the leading decimal digit, searched downwards from `k`. -/
def leading (n : Positive) : (steps : Nat) → (k : Int) → Int
  | 0, k => k
  | steps + 1, k => if n.below k = 0 then n.leading steps (k - 1) else k

/-- An exponent at or above that of the leading digit: `log 2 < 30103 / 100000`. -/
def leadingBound (n : Positive) : Int :=
  (n.mantissa.log2 + n.exponent + 1) * 30103 / 100000 + 1

/-- The first grid from `10 ^ k` downwards with a point that reads back.  Seventeen
digits always suffice. -/
def search (n : Positive) : (steps : Nat) → (k : Int) → Digits
  | 0, k => ⟨n.below k, k⟩
  | steps + 1, k =>
    match n.onGrid k with
    | some t => ⟨t, k⟩
    | none => n.search steps (k - 1)

end Positive
end Binary64

namespace Decimal

/-- Moves trailing zeros of the coefficient into the exponent. -/
def Digits.strip : (steps : Nat) → Digits → Digits
  | 0, d => d
  | steps + 1, d =>
    if d.coefficient % 10 = 0 then strip steps ⟨d.coefficient / 10, d.exponent + 1⟩ else d

/-- The fewest digits that read back as `n`, and of those the nearest to it. -/
def shortest (n : Binary64.Positive) : Digits :=
  Digits.strip 20 (n.search 17 (n.leading 400 n.leadingBound))

/-! ## Setting the digits out -/

/-- How a number is set out.  `positional` lists the exponents of the leading digit
for which no exponent is written, as a half-open range; none means all of them.
`whole` follows a positional number without a fraction. -/
structure Layout where
  positional : Option (Int × Int)
  whole : String

/-- Values show all their digits: no exponent, and no fraction on whole numbers. -/
def Layout.plain : Layout := ⟨none, ""⟩

/-- Structural forms show whole numbers with a fraction, and write an exponent below
`10 ^ (-4)` and from `10 ^ 16` on. -/
def Layout.structural : Layout := ⟨some (-4, 16), ".0"⟩

def zeros (n : Nat) : String := String.ofList (List.replicate n '0')

/-- The digits with the decimal point in its place. -/
def positionalText (layout : Layout) (d : Digits) : String :=
  let digits := Nat.toDigits 10 d.coefficient
  match d.exponent with
  | .ofNat n => String.ofList digits ++ zeros n ++ layout.whole
  | .negSucc n =>
    let places := n + 1
    if places < digits.length then
      let split := digits.length - places
      String.ofList (digits.take split) ++ "." ++ String.ofList (digits.drop split)
    else
      "0." ++ zeros (places - digits.length) ++ String.ofList digits

/-- One digit before the point, and the exponent of that digit. -/
def exponentText (d : Digits) : String :=
  let digits := Nat.toDigits 10 d.coefficient
  let lead := d.exponent + (digits.length - 1)
  let fraction := digits.drop 1
  String.ofList (digits.take 1) ++
    (if fraction.isEmpty then "" else "." ++ String.ofList fraction) ++ "e" ++ ofInt lead

def digitsText (layout : Layout) (d : Digits) : String :=
  let lead := d.exponent + ((Nat.toDigits 10 d.coefficient).length - 1)
  match layout.positional with
  | none => positionalText layout d
  | some (low, high) =>
    if low ≤ lead ∧ lead < high then positionalText layout d else exponentText d

/-- The text of a binary64 number.  What is not a number has no sign; zero keeps its
sign. -/
def ofBinary64 (layout : Layout) (x : Binary64) : String :=
  let sign := if x.isNegative then "-" else ""
  match x.magnitude with
  | .notANumber => "NaN"
  | .infinite => sign ++ "inf"
  | .zero => sign ++ "0" ++ layout.whole
  | .finite n => sign ++ digitsText layout (shortest n)

end Decimal
end PegMatcher
