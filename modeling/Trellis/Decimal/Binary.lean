/-! # Binary floating-point numbers

Percentages and thresholds are binary floating-point numbers of 64 bits. They are kept as what
they denote, so that reading, comparing and printing them is exact integer arithmetic.

* `Binary.finite negative m e` denotes `± m · 2 ^ e`. A number is *canonical* when `m < 2 ^ 53`,
  `-1074 ≤ e ≤ 971`, and `m` has 53 bits unless `e` is the least exponent; `Binary.round` gives
  canonical numbers only.
* `Binary.round` takes a quotient of natural numbers to the nearest canonical number, a tie to
  the even mantissa, and a quotient beyond the range to infinity.
* `Binary.le` compares by value; nothing is comparable with `notANumber`. -/

namespace Trellis.Decimal

/-- A binary floating-point number, as what it denotes. -/
inductive Binary where
  /-- The result of a reading that names no number. -/
  | notANumber
  /-- Positive or negative infinity. -/
  | infinite (negative : Bool)
  /-- The number `± mantissa · 2 ^ exponent`. -/
  | finite (negative : Bool) (mantissa : Nat) (exponent : Int)
  deriving DecidableEq, Repr

namespace Binary

/-- The least exponent of a canonical number. -/
def minExponent : Int := -1074

/-- The greatest exponent of a canonical number. -/
def maxExponent : Int := 971

/-- Zero with a sign. -/
def zero (negative : Bool) : Binary := .finite negative 0 minExponent

/-- Divides and goes to the nearest integer, a tie to the even one. -/
def roundDiv (num den : Nat) : Nat :=
  let q := num / den
  let r := num % den
  if 2 * r < den then q
  else if den < 2 * r then q + 1
  else q + q % 2

/-- The numerator and the denominator of `(num / den) / 2 ^ e`. -/
def scaled (num den : Nat) (e : Int) : Nat × Nat :=
  if 0 ≤ e then (num, den * Nat.pow 2 e.toNat) else (num * Nat.pow 2 (-e).toNat, den)

/-- The exponent at which the quotient `num / den` has a mantissa of 53 bits, or the least one. -/
def exponentOf (num den : Nat) : Int :=
  let e : Int := (num.log2 : Int) - den.log2 - 52
  let (n, d) := scaled num den e
  let e := if n < d * Nat.pow 2 52 then e - 1 else e
  max e minExponent

/-- The canonical number nearest to `num / den`, for a `den` that is not zero. -/
def round (negative : Bool) (num den : Nat) : Binary :=
  if num = 0 then zero negative
  else
    let e := exponentOf num den
    let (n, d) := scaled num den e
    let m := roundDiv n d
    let (m, e) := if m = Nat.pow 2 53 then (Nat.pow 2 52, e + 1) else (m, e)
    if maxExponent < e then .infinite negative else .finite negative m e

/-- The canonical number nearest to a natural number. -/
def ofNat (n : Nat) : Binary := round false n 1

/-- The canonical number nearest to an integer. -/
def ofInt (n : Int) : Binary := round (n < 0) n.natAbs 1

/-- Numerator and denominator of the size of a finite number. -/
def ratio (m : Nat) (e : Int) : Nat × Nat :=
  if 0 ≤ e then (m * Nat.pow 2 e.toNat, 1) else (m, Nat.pow 2 (-e).toNat)

/-- The sign turned round. -/
def neg : Binary → Binary
  | notANumber => notANumber
  | infinite s => infinite (!s)
  | finite s m e => finite (!s) m e

/-- The signed numerator and the denominator of a finite number. -/
def signedRatio (negative : Bool) (m : Nat) (e : Int) : Int × Nat :=
  let (n, d) := ratio m e
  (if negative then -(n : Int) else n, d)

/-- Whether one number is at most another, by value. -/
def le : Binary → Binary → Bool
  | notANumber, _ => false
  | _, notANumber => false
  | infinite true, _ => true
  | _, infinite false => true
  | infinite false, _ => false
  | _, infinite true => false
  | finite s m e, finite s' m' e' =>
    let (n, d) := signedRatio s m e
    let (n', d') := signedRatio s' m' e'
    n * d' ≤ n' * d

/-- Whether one number is smaller than another, by value. -/
def lt (a b : Binary) : Bool := a.le b && !b.le a

/-- Whether the number is zero of either sign. -/
def isZero : Binary → Bool
  | finite _ 0 _ => true
  | _ => false

/-- The product of the sizes of two finite numbers, rounded; `notANumber` otherwise. -/
def mulSize : Binary → Binary → Binary
  | finite _ m e, finite _ m' e' =>
    let (n, d) := ratio m e
    let (n', d') := ratio m' e'
    round false (n * n') (d * d')
  | _, _ => notANumber

/-- The quotient of the sizes of two finite numbers, rounded; `notANumber` otherwise. -/
def divSize : Binary → Binary → Binary
  | finite _ m e, finite _ m' e' =>
    let (n, d) := ratio m e
    let (n', d') := ratio m' e'
    if n' = 0 then notANumber else round false (n * d') (d * n')
  | _, _ => notANumber

end Binary

end Trellis.Decimal
