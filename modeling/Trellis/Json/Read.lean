import Trellis.Json.Value
import Trellis.Text.Search

/-! # Reading structured values

Reading has two steps, because a reader that looks only at some members does not judge the rest.

* `Json.scan` reads a text into a `Draft`: the brackets, commas, quotes and escapes must be right,
  but a number is kept as it is spelled and a text may still hold half of a surrogate pair.
* `Draft.value?` judges a draft: it refuses numbers outside the range, texts that are no character
  sequence, and values nested more than `depthLimit` deep.

A number with a point or an exponent is computed from the digits that fit 64 bits, by one
multiplication or division with a power of ten. -/

namespace Trellis.Json

open Decimal (Binary natOfDigits)

/-- The spelling of a number. -/
structure Numeral where
  /-- Whether a minus sign stands before it. -/
  negative : Bool
  /-- The digits before the point. -/
  whole : List Char
  /-- The digits after the point, where there is one. -/
  places : Option (List Char)
  /-- The sign and the digits of the exponent, where there is one. -/
  power : Option (Bool × List Char)
  deriving Repr

/-- A value whose numbers and texts are not judged yet. -/
inductive Draft where
  /-- The absent value. -/
  | null
  /-- A truth value. -/
  | bool (b : Bool)
  /-- A number as it is spelled. -/
  | number (n : Numeral)
  /-- A text, absent when it holds half of a surrogate pair. -/
  | text (s : Option String)
  /-- Values in order. -/
  | arr (items : List Draft)
  /-- Named values in order. -/
  | obj (members : List (Option String × Draft))
  deriving Repr, Inhabited

/-! ### Tokens -/

/-- The blanks between tokens. -/
def isGap (c : Char) : Bool := c = ' ' || c = '\n' || c = '\t' || c = '\r'

/-- Skips the blanks between tokens. -/
def skipGaps (s : List Char) : List Char := s.dropWhile isGap

/-- The value of a hexadecimal digit. -/
def hexValue? (c : Char) : Option Nat :=
  let n := c.toNat
  if 48 ≤ n && n ≤ 57 then some (n - 48)
  else if 97 ≤ n && n ≤ 102 then some (n - 87)
  else if 65 ≤ n && n ≤ 70 then some (n - 55)
  else none

/-- Four hexadecimal digits and what follows. -/
def readUnit? : List Char → Option (Nat × List Char)
  | a :: b :: c :: d :: s => do
    let a ← hexValue? a
    let b ← hexValue? b
    let c ← hexValue? c
    let d ← hexValue? d
    some (4096 * a + 256 * b + 16 * c + d, s)
  | _ => none

/-- The character of a one-letter escape. -/
def escape? (c : Char) : Option Char :=
  if c = '"' || c = '\\' || c = '/' then some c
  else if c = 'b' then some (Char.ofNat 8)
  else if c = 'f' then some (Char.ofNat 12)
  else if c = 'n' then some '\n'
  else if c = 'r' then some '\r'
  else if c = 't' then some '\t'
  else none

/-- One element of a text: a character or an unpaired half. -/
def readElement? : List Char → Option (Option Char × List Char)
  | [] => none
  | '\\' :: 'u' :: s => do
    let (unit, s) ← readUnit? s
    if 0xD800 ≤ unit && unit ≤ 0xDBFF then
      match s with
      | '\\' :: 'u' :: s' =>
        let (low, s') ← readUnit? s'
        if 0xDC00 ≤ low && low ≤ 0xDFFF then
          some (some (Char.ofNat (0x10000 + (unit - 0xD800) * 0x400 + (low - 0xDC00))), s')
        else some (none, s)
      | _ => some (none, s)
    else if 0xDC00 ≤ unit && unit ≤ 0xDFFF then some (none, s)
    else some (some (Char.ofNat unit), s)
  | '\\' :: c :: s => (escape? c).map fun c => (some c, s)
  | c :: s => if c.toNat < 0x20 || c = '"' || c = '\\' then none else some (some c, s)

/-- The elements of a text up to the closing quote, and what follows; `n` bounds their number. -/
def readElements : Nat → List Char → Option (List (Option Char) × List Char)
  | 0, _ => none
  | n + 1, s =>
    match s with
    | '"' :: rest => some ([], rest)
    | _ => do
      let (e, rest) ← readElement? s
      let (es, rest) ← readElements n rest
      some (e :: es, rest)

/-- The text of elements without unpaired halves. -/
def textOf : List (Option Char) → Option String
  | es => (es.mapM id).map String.ofList

/-- A text after its opening quote. -/
def readText (s : List Char) : Option (Option String × List Char) :=
  (readElements (s.length + 1) s).map fun (es, rest) => (textOf es, rest)

/-- The digits of an integer part: zero alone, or digits that do not start with zero. -/
def readWhole : List Char → Option (List Char × List Char)
  | '0' :: s =>
    match s with
    | c :: _ => if c.isDigit then none else some (['0'], s)
    | [] => some (['0'], s)
  | s =>
    let ds := s.takeWhile Char.isDigit
    if ds.isEmpty then none else some (ds, s.dropWhile Char.isDigit)

/-- The part after the point, where there is one. -/
def readPlaces : List Char → Option (Option (List Char) × List Char)
  | '.' :: s =>
    let ds := s.takeWhile Char.isDigit
    if ds.isEmpty then none else some (some ds, s.dropWhile Char.isDigit)
  | s => some (none, s)

/-- The exponent, where there is one. -/
def readPower : List Char → Option (Option (Bool × List Char) × List Char)
  | c :: s =>
    if c = 'e' || c = 'E' then
      let (negative, s) := Decimal.splitSign s
      let ds := s.takeWhile Char.isDigit
      if ds.isEmpty then none else some (some (negative, ds), s.dropWhile Char.isDigit)
    else some (none, c :: s)
  | [] => some (none, [])

/-- A number and what follows. -/
def readNumeral (s : List Char) : Option (Numeral × List Char) := do
  let (negative, s) := match s with
    | '-' :: r => (true, r)
    | r => (false, r)
  let (whole, s) ← readWhole s
  let (places, s) ← readPlaces s
  let (power, s) ← readPower s
  some (⟨negative, whole, places, power⟩, s)

/-! ### Values -/

mutual

/-- A value and what follows; `n` bounds the steps. -/
def scanValue : Nat → List Char → Option (Draft × List Char)
  | 0, _ => none
  | n + 1, s =>
    match skipGaps s with
    | 'n' :: 'u' :: 'l' :: 'l' :: r => some (.null, r)
    | 't' :: 'r' :: 'u' :: 'e' :: r => some (.bool true, r)
    | 'f' :: 'a' :: 'l' :: 's' :: 'e' :: r => some (.bool false, r)
    | '"' :: r => (readText r).map fun (t, r) => (.text t, r)
    | '[' :: r =>
      match skipGaps r with
      | ']' :: r => some (.arr [], r)
      | r => (scanItems n r).map fun (items, r) => (.arr items, r)
    | '\x7b' :: r =>
      match skipGaps r with
      | '\x7d' :: r => some (.obj [], r)
      | r => (scanMembers n r).map fun (members, r) => (.obj members, r)
    | r => (readNumeral r).map fun (x, r) => (.number x, r)

/-- The items of a list up to the closing bracket. -/
def scanItems : Nat → List Char → Option (List Draft × List Char)
  | 0, _ => none
  | n + 1, s =>
    match scanValue n s with
    | none => none
    | some (v, r) =>
      match skipGaps r with
      | ',' :: r => (scanItems n r).map fun (vs, r) => (v :: vs, r)
      | ']' :: r => some ([v], r)
      | _ => none

/-- The members of an object up to the closing brace. -/
def scanMembers : Nat → List Char → Option (List (Option String × Draft) × List Char)
  | 0, _ => none
  | n + 1, s =>
    match skipGaps s with
    | '"' :: r =>
      match readText r with
      | none => none
      | some (name, r) =>
        match skipGaps r with
        | ':' :: r =>
          match scanValue n r with
          | none => none
          | some (v, r) =>
            match skipGaps r with
            | ',' :: r => (scanMembers n r).map fun (ms, r) => ((name, v) :: ms, r)
            | '\x7d' :: r => some ([(name, v)], r)
            | _ => none
        | _ => none
    | _ => none

end

/-- Reads a whole text. -/
def scan (s : List Char) : Option Draft :=
  match scanValue (2 * s.length + 2) s with
  | some (v, r) => if (skipGaps r).isEmpty then some v else none
  | none => none

/-! ### Judging numbers -/

/-- The greatest natural number of 64 bits. -/
def maxWord : Nat := Nat.pow 2 64 - 1

/-- Takes in digits while the number fits 64 bits; gives the number and the digits left. -/
def takeDigits (n : Nat) : List Char → Nat × List Char
  | [] => (n, [])
  | c :: s =>
    let n' := 10 * n + Decimal.digitValue c
    if maxWord < n' then (n, c :: s) else takeDigits n' s

/-- `x · 10 ^ e` by one operation with a power of ten, or by several divisions when `e` is very
small; absent when the result is too large. `n` bounds the divisions. -/
def scaleByPower : Nat → Binary → Int → Option Binary
  | 0, x, _ => some x
  | n + 1, x, e =>
    if e.natAbs ≤ 308 then
      let p := Binary.round false (Nat.pow 10 e.natAbs) 1
      if 0 ≤ e then
        match x.mulSize p with
        | .infinite _ => none
        | y => some y
      else some (x.divSize p)
    else if x.isZero then some x
    else if 0 ≤ e then none
    else scaleByPower n (x.divSize (Binary.round false (Nat.pow 10 308) 1)) (e + 308)

/-- The greatest exponent that can be spelled. -/
def maxPower : Nat := Nat.pow 2 31 - 1

/-- The number that a numeral denotes, absent when it is out of range. -/
def Numeral.value? (x : Numeral) : Option Json :=
  let signed (y : Binary) : Json := .real (if x.negative then y.neg else y)
  let (n, left) := takeDigits 0 x.whole
  match x.places, x.power with
  | none, none =>
    if left.isEmpty then
      if !x.negative then some (.int n)
      else if n = 0 then some (.real (Binary.zero true))
      else if n ≤ Nat.pow 2 63 then some (.int (-(n : Int)))
      else some (signed (Binary.ofNat n))
    else (scaleByPower 5 (Binary.ofNat n) left.length).map signed
  | places, power =>
    let places := places.getD []
    let (m, ignored) := takeDigits n places
    let shift : Int := (left.length : Int) - (places.length - ignored.length : Nat)
    let power := power.getD (false, [])
    let size := natOfDigits power.2
    if maxPower < size then
      if m ≠ 0 && !power.1 then none else some (signed (Binary.zero false))
    else
      let e := if power.1 then shift - size else shift + size
      (scaleByPower 5 (Binary.ofNat m) e).map signed

/-! ### Judging values -/

/-- How deep values may be nested. -/
def depthLimit : Nat := 127

mutual

/-- The value of a draft, at most `depth` levels deep. -/
def Draft.valueWithin (depth : Nat) : Draft → Option Json
  | .null => some .null
  | .bool b => some (.bool b)
  | .number x => x.value?
  | .text s => s.map .str
  | .arr items => if depth = 0 then none else (valuesWithin (depth - 1) items).map .arr
  | .obj members => if depth = 0 then none else (membersWithin (depth - 1) members).map .obj

/-- The values of drafts. -/
def Draft.valuesWithin (depth : Nat) : List Draft → Option (List Json)
  | [] => some []
  | d :: ds => do
    let v ← valueWithin depth d
    let vs ← valuesWithin depth ds
    some (v :: vs)

/-- The members of a draft of an object. -/
def Draft.membersWithin (depth : Nat) : List (Option String × Draft) → Option (List (String × Json))
  | [] => some []
  | (name, d) :: ds => do
    let name ← name
    let v ← valueWithin depth d
    let vs ← membersWithin depth ds
    some ((name, v) :: vs)

end

/-- The value of a draft. -/
def Draft.value? (d : Draft) : Option Json := d.valueWithin depthLimit

/-- Reads a text as one value. -/
def read? (s : String) : Option Json := (scan s.toList).bind Draft.value?

end Trellis.Json
