import Trellis.Decimal.Binary

/-! # Decimal texts of binary numbers

A decimal `⟨coefficient, exponent⟩` denotes `coefficient · 10 ^ exponent`.

* `Digits.toBinary` rounds a decimal to the nearest binary number.
* `Digits.shortest` gives a decimal with the fewest digits that rounds back to a given number,
  and of those the nearest one.
* `plain`, `compact` and `fixed` are the three ways in which numbers are written: positional; with
  an exponent outside a window; with a given number of places.
* `read?` reads a signed decimal, with or without point and exponent, or the name of infinity or
  of no number in any case. -/

namespace Trellis.Decimal

/-- The number `coefficient · 10 ^ exponent`. -/
structure Digits where
  /-- The digits, read as a natural number. -/
  coefficient : Nat
  /-- The power of ten they count. -/
  exponent : Int
  deriving DecidableEq, Repr

/-- The decimal digits of a number as characters. -/
def digitChars (n : Nat) : List Char := Nat.toDigits 10 n

/-- The number of decimal digits; zero has one. -/
def digitCount (n : Nat) : Nat := (digitChars n).length

namespace Digits

/-- Numerator and denominator of a decimal. -/
def ratio (d : Digits) : Nat × Nat :=
  if 0 ≤ d.exponent then (d.coefficient * Nat.pow 10 d.exponent.toNat, 1)
  else (d.coefficient, Nat.pow 10 (-d.exponent).toNat)

/-- The nearest binary number. Decimals far outside the range are settled by their magnitude. -/
def toBinary (negative : Bool) (d : Digits) : Binary :=
  if d.coefficient = 0 then Binary.zero negative
  else
    let magnitude := d.exponent + digitCount d.coefficient
    if 400 < magnitude then .infinite negative
    else if magnitude < -400 then Binary.zero negative
    else
      let (n, k) := d.ratio
      Binary.round negative n k

/-- The power of ten of the leading digit of the quotient `n / d`, for positive `n` and `d`. -/
def leadingExponent (n d : Nat) : Int :=
  let guess : Int := (digitCount n : Int) - digitCount d
  if (if 0 ≤ guess then d * Nat.pow 10 guess.toNat ≤ n
    else d ≤ n * Nat.pow 10 (-guess).toNat) then guess
  else guess - 1

/-- The same number with one trailing zero less, if it has one. -/
def dropZero (d : Digits) : Digits :=
  if d.coefficient % 10 = 0 then ⟨d.coefficient / 10, d.exponent + 1⟩ else d

/-- The two neighbours of `n / d` on the grid of multiples of `10 ^ k`, the nearer one first. -/
def neighbours (n d : Nat) (k : Int) : List Digits :=
  let (n, d) := if 0 ≤ k then (n, d * Nat.pow 10 k.toNat) else (n * Nat.pow 10 (-k).toNat, d)
  let q := n / d
  let r := n % d
  let below : Digits := ⟨q, k⟩
  let above : Digits := ⟨q + 1, k⟩
  if 2 * r < d || (2 * r = d && q % 2 = 0) then [below, above] else [above, below]

/-- The nearest decimal of `places` digits that rounds to the number, if there is one. It is not
computed to see what `search` does. -/
@[irreducible]
def candidate? (m : Nat) (e : Int) (places : Nat) : Option Digits :=
  let (n, d) := Binary.ratio m e
  let k := leadingExponent n d - places + 1
  (neighbours n d k).find? fun c => c.toBinary false = .finite false m e

/-- Looks for a decimal of `places` digits, then of more, that rounds to the number. -/
def search (m : Nat) (e : Int) : Nat → Nat → Option Digits
  | 0, _ => none
  | fuel + 1, places =>
    match candidate? m e places with
    | some c => some c.dropZero
    | none => search m e fuel (places + 1)

/-- All digits of a finite number: every such number is a decimal. -/
def exact (m : Nat) (e : Int) : Digits :=
  if 0 ≤ e then ⟨m * Nat.pow 2 e.toNat, 0⟩ else ⟨m * Nat.pow 5 (-e).toNat, e⟩

/-- A decimal with the fewest digits that rounds back to `m · 2 ^ e`. -/
def shortest (m : Nat) (e : Int) : Digits :=
  if m = 0 then ⟨0, 0⟩ else (search m e 17 1).getD (exact m e)

/-- Positional notation, without a point for a whole number. -/
def plain (d : Digits) : List Char :=
  let ds := digitChars d.coefficient
  if 0 ≤ d.exponent then ds ++ (if d.coefficient = 0 then [] else List.replicate d.exponent.toNat '0')
  else
    let places := (-d.exponent).toNat
    let padded := List.replicate (places + 1 - ds.length) '0' ++ ds
    padded.take (padded.length - places) ++ '.' :: padded.drop (padded.length - places)

/-- An exponent after the first digit when the leading digit stands above `10 ^ 15` or below
`10 ^ -5`, positional notation with at least one decimal place otherwise. -/
def compact (d : Digits) : List Char :=
  let ds := digitChars d.coefficient
  let top : Int := d.exponent + ds.length
  if d.coefficient = 0 then "0.0".toList
  else if 0 ≤ d.exponent && top ≤ 16 then d.plain ++ ".0".toList
  else if -5 < top && top ≤ 16 then d.plain
  else
    let mark := 'e' :: (toString (top - 1)).toList
    match ds with
    | [] => mark
    | [c] => c :: mark
    | c :: more => c :: '.' :: more ++ mark

end Digits

namespace Binary

/-- The sign as it is written before a number. -/
def signChars (negative : Bool) : List Char := if negative then ['-'] else []

/-- Positional notation, the fewest digits that read back; whole numbers end in `.0`. -/
def plain : Binary → String
  | notANumber => "nan"
  | infinite s => String.ofList (signChars s ++ "inf".toList)
  | finite s m e =>
    let text := (Digits.shortest m e).plain
    String.ofList (signChars s ++ text ++ (if text.contains '.' then [] else ".0".toList))

/-- The fewest digits that read back, with an exponent for very large and very small numbers. -/
def compact : Binary → String
  | notANumber => "null"
  | infinite _ => "null"
  | finite s m e => String.ofList (signChars s ++ (Digits.shortest m e).compact)

/-- Exactly `places` decimal places, a tie to the even digit. -/
def fixed (places : Nat) : Binary → String
  | notANumber => "NaN"
  | infinite s => String.ofList (signChars s ++ "inf".toList)
  | finite s m e =>
    let (n, d) := ratio m e
    let scaled : Digits := ⟨roundDiv (n * Nat.pow 10 places) d, -(places : Int)⟩
    String.ofList (signChars s ++ scaled.plain)

end Binary

/-! ### Reading -/

/-- The value of a digit. -/
def digitValue (c : Char) : Nat := c.toNat - '0'.toNat

/-- The number that decimal digits denote. -/
def natOfDigits (s : List Char) : Nat := s.foldl (fun n c => 10 * n + digitValue c) 0

/-- A sign, if there is one, and what follows. -/
def splitSign : List Char → Bool × List Char
  | '-' :: s => (true, s)
  | '+' :: s => (false, s)
  | s => (false, s)

/-- The exponent after a decimal's digits: absent, or a mark, a sign and at least one digit. -/
def readExponent? : List Char → Option Int
  | [] => some 0
  | c :: s =>
    if c = 'e' || c = 'E' then
      let (negative, ds) := splitSign s
      if ds.isEmpty || !ds.all Char.isDigit then none
      else some (if negative then -(natOfDigits ds : Int) else natOfDigits ds)
    else none

/-- An unsigned decimal: digits with or without a point, at least one of them, and perhaps an
exponent. -/
def readDecimal? (s : List Char) : Option Digits :=
  let whole := s.takeWhile Char.isDigit
  let rest := s.dropWhile Char.isDigit
  let (places, rest) :=
    match rest with
    | '.' :: r => (r.takeWhile Char.isDigit, r.dropWhile Char.isDigit)
    | r => ([], r)
  if whole.isEmpty && places.isEmpty then none
  else (readExponent? rest).map fun e => ⟨natOfDigits (whole ++ places), e - places.length⟩

/-- Reads a number with an optional sign. -/
def Binary.read? (s : List Char) : Option Binary :=
  let (negative, rest) := splitSign s
  let name := rest.map Char.toLower
  if name = "inf".toList || name = "infinity".toList then some (.infinite negative)
  else if name = "nan".toList then some .notANumber
  else (readDecimal? rest).map (·.toBinary negative)

end Trellis.Decimal
