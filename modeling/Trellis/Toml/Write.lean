import Trellis.Toml.Value

/-! # Writing the settings format

How one setting is written.

* A text is put between double quotes when nothing in it needs an escape, else between single
  quotes, else between three double or three single quotes; a text that none of these can show as it
  is gets escapes.
* An array of more than one item has one item a line, indented by four spaces, with a comma after
  each; a shorter one stands on one line. -/

namespace Trellis.Toml

open Decimal (Binary)

/-- The length of the longest run of a character. -/
def longestRun (q : Char) : Nat → Nat → List Char → Nat
  | best, _, [] => best
  | best, run, c :: s =>
    if c = q then longestRun q (max best (run + 1)) (run + 1) s else longestRun q best 0 s

/-- Whether a text holds a control character other than a tab and a line feed. -/
def hasControl (s : List Char) : Bool :=
  s.any fun c => c ≠ '\t' && c ≠ '\n' && (c.toNat < 0x20 || c.toNat = 0x7F)

/-- The ways of quoting a text. -/
inductive Quoting where
  /-- Double quotes. -/
  | basic
  /-- Single quotes. -/
  | plain
  /-- Three double quotes. -/
  | basicLines
  /-- Three single quotes. -/
  | plainLines
  deriving DecidableEq, Repr

/-- The quoting of a text: the first that needs no escapes, else double quotes. -/
def Quoting.of (s : List Char) : Quoting :=
  let doubles := longestRun '"' 0 0 s
  let singles := longestRun '\'' 0 0 s
  let control := hasControl s
  let backslash := s.contains '\\'
  let breaks := s.contains '\n'
  if !control && !backslash && doubles = 0 && !breaks then .basic
  else if !control && singles = 0 && !breaks then .plain
  else if !control && !backslash && doubles ≤ 2 then .basicLines
  else if !control && singles ≤ 2 then .plainLines
  else if breaks then .basicLines
  else .basic

/-- The four hexadecimal digits of a small number, in capitals. -/
def hex4 (n : Nat) : List Char :=
  [n / 4096 % 16, n / 256 % 16, n / 16 % 16, n % 16].map fun d => (Nat.digitChar d).toUpper

/-- How a character other than a quote stands in a text between double quotes. -/
def escapeChar (lines : Bool) (c : Char) : List Char :=
  if c.toNat = 8 then ['\\', 'b']
  else if c = '\t' then ['\\', 't']
  else if c = '\n' then if lines then ['\n'] else ['\\', 'n']
  else if c.toNat = 12 then ['\\', 'f']
  else if c = '\r' then ['\\', 'r']
  else if c = '\\' then ['\\', '\\']
  else if c.toNat < 0x20 || c.toNat = 0x7F then '\\' :: 'u' :: hex4 c.toNat
  else [c]

/-- The text between double quotes. At most `allowed` quotes in a row stand without an escape;
`run` counts those just written. -/
def escape (lines : Bool) (allowed : Nat) (run : Nat) : List Char → List Char
  | [] => []
  | c :: s =>
    if c = '"' then
      if allowed < run + 1 then '\\' :: '"' :: escape lines allowed 0 s
      else '"' :: escape lines allowed (run + 1) s
    else escapeChar lines c ++ escape lines allowed 0 s

/-- A text with its quotes. -/
def quote (s : List Char) : List Char :=
  let first := if s.contains '\n' then ['\n'] else []
  match Quoting.of s with
  | .basic => '"' :: escape false 0 0 s ++ ['"']
  | .plain => '\'' :: s ++ ['\'']
  | .basicLines => ['"', '"', '"'] ++ first ++ escape true 2 0 s ++ ['"', '"', '"']
  | .plainLines => ['\'', '\'', '\''] ++ first ++ s ++ ['\'', '\'', '\'']

/-- A text as a value. -/
def textValue (s : String) : String := String.ofList (quote s.toList)

/-- A truth value as a value. -/
def truthValue (b : Bool) : String := if b then "true" else "false"

/-- Texts as an array. -/
def textsValue : List String → String
  | [] => "[]"
  | [s] => "[" ++ textValue s ++ "]"
  | ss => "[\n" ++ String.join (ss.map fun s => "    " ++ textValue s ++ ",\n") ++ "]"

/-- A key with its value on a line of its own. -/
def line (key value : String) : String := key ++ " = " ++ value ++ "\n"

end Trellis.Toml
