/-! # Lexemes

How far a word, a number, a quoted text, a regular expression or a comment reaches at the start of a
text. Each function gives the number of characters, or none when there is no such lexeme.

Any word may be a name: whether it is also a keyword depends on the place where it stands. -/

namespace Trellis.Syntax.Lexeme

/-! ### Characters -/

/-- Blanks between tokens. -/
def isSpace (c : Char) : Bool :=
  let n := c.toNat
  n = 0x20 || (9 ≤ n && n ≤ 13) || n = 0xA0 || n = 0x1680 || (0x2000 ≤ n && n ≤ 0x200B) ||
  n = 0x2028 || n = 0x2029 || n = 0x202F || n = 0x205F || n = 0x2060 || n = 0x3000 || n = 0xFEFF

/-- Characters that end a line. -/
def isBreak (c : Char) : Bool :=
  c = '\n' || c = '\r' || c.toNat = 0x2028 || c.toNat = 0x2029

/-- Characters of the basic block that cannot be part of a name. -/
def isMarkChar (c : Char) : Bool := ":;\x60\"'@#.,|^&<=>+-*/\\%?!~()[]\x7b\x7d".toList.contains c

/-- Characters that may be part of a name. -/
def isWordChar (c : Char) : Bool := 0x20 ≤ c.toNat && !isSpace c && !isMarkChar c

/-- Characters that may start a name. -/
def isWordStart (c : Char) : Bool := isWordChar c && !c.isDigit

/-- Hexadecimal digits. -/
def isHex (c : Char) : Bool :=
  c.isDigit || ('a' ≤ c && c ≤ 'f') || ('A' ≤ c && c ≤ 'F')

/-! ### Words -/

/-- The length of an escape that stands for a character of a name, after its backslash. -/
def wordEscape? : List Char → Option Nat
  | 'u' :: '\x7b' :: s =>
    let n := (s.takeWhile isHex).length
    if n = 0 then none
    else
      match s.dropWhile isHex with
      | '\x7d' :: _ => some (n + 3)
      | _ => none
  | 'u' :: a :: b :: c :: d :: _ => if [a, b, c, d].all isHex then some 5 else none
  | _ => none

/-- The length of the part of a word after its first character; `n` bounds it. -/
def wordRest : Nat → List Char → Nat
  | 0, _ => 0
  | _ + 1, [] => 0
  | n + 1, c :: s =>
    if c = '\\' then
      match wordEscape? s with
      | some k => 1 + k + wordRest n (s.drop k)
      | none => 0
    else if isWordChar c then 1 + wordRest n s
    else 0

/-- A word: a name or a keyword. -/
def word? : List Char → Option Nat
  | [] => none
  | c :: s =>
    if c = '\\' then (wordEscape? s).map fun k => 1 + k + wordRest s.length (s.drop k)
    else if isWordStart c then some (1 + wordRest s.length s)
    else none

/-! ### Numbers -/

/-- Digits with single underscores between them, after the first digit. -/
def moreDigits (isDigit : Char → Bool) : List Char → Nat
  | '_' :: c :: s => if isDigit c then 2 + moreDigits isDigit s else 0
  | c :: s => if isDigit c then 1 + moreDigits isDigit s else 0
  | [] => 0

/-- Digits with single underscores between them. -/
def digits? (isDigit : Char → Bool) : List Char → Option Nat
  | c :: s => if isDigit c then some (1 + moreDigits isDigit s) else none
  | [] => none

/-- Decimal digits. -/
def decimals? : List Char → Option Nat := digits? Char.isDigit

/-- An exponent, if it is complete. -/
def exponent (s : List Char) : Nat :=
  match s with
  | c :: r =>
    if c = 'e' || c = 'E' then
      match r with
      | sign :: r' =>
        if sign = '+' || sign = '-' then ((decimals? r').map (· + 2)).getD 0
        else ((decimals? r).map (· + 1)).getD 0
      | [] => 0
    else 0
  | [] => 0

/-- A fraction with its point, if there is one. -/
def fraction : List Char → Nat
  | '.' :: s => 1 + (decimals? s).getD 0
  | _ => 0

/-- Digits of another base with the mark of large integers, if it follows. -/
def based? (isDigit : Char → Bool) (s : List Char) : Option Nat :=
  (digits? isDigit s).map fun n =>
    match s.drop n with
    | 'n' :: _ => n + 3
    | _ => n + 2

/-- A decimal number that starts with a digit. -/
def decimal? (s : List Char) : Option Nat :=
  (decimals? s).map fun n =>
    match s.drop n with
    | 'n' :: _ => n + 1
    | r =>
      let f := fraction r
      n + f + exponent (r.drop f)

/-- A number. -/
def number? : List Char → Option Nat
  | '0' :: x :: s =>
    if x = 'x' || x = 'X' then based? isHex s
    else if x = 'o' || x = 'O' then based? (fun c => '0' ≤ c && c ≤ '7') s
    else if x = 'b' || x = 'B' then based? (fun c => c = '0' || c = '1') s
    else decimal? ('0' :: x :: s)
  | '.' :: s => (decimals? s).map fun n => 1 + n + exponent (s.drop n)
  | s => decimal? s

/-! ### Quoted texts -/

/-- The length of an escape after its backslash. -/
def escape? : List Char → Option Nat
  | 'x' :: a :: b :: _ => if isHex a && isHex b then some 3 else none
  | 'x' :: _ => none
  | 'u' :: s => wordEscape? ('u' :: s)
  | '\r' :: '\n' :: _ => some 2
  | c :: s =>
    if '0' ≤ c && c ≤ '7' then
      let more := (s.take 2).takeWhile fun d => '0' ≤ d && d ≤ '7'
      some (1 + more.length)
    else some 1
  | [] => none

/-- The length of a text up to and with its closing quote; `n` bounds it. -/
def quotedRest (q : Char) : Nat → List Char → Option Nat
  | 0, _ => none
  | _ + 1, [] => none
  | n + 1, c :: s =>
    if c = q then some 1
    else if c = '\\' then
      match escape? s with
      | some k => (quotedRest q n (s.drop k)).map (1 + k + ·)
      | none => none
    else if c = '\n' || c = '\r' then none
    else (quotedRest q n s).map (1 + ·)

/-- A text between single or double quotes. -/
def string? : List Char → Option Nat
  | c :: s => if c = '"' || c = '\'' then (quotedRest c s.length s).map (1 + ·) else none
  | [] => none

/-- The length of the characters of a template up to a closing quote or a substitution; `n` bounds
it. -/
def templateChars? : Nat → List Char → Option Nat
  | 0, _ => none
  | _ + 1, [] => none
  | n + 1, c :: s =>
    if c = '\x60' then some 0
    else if c = '\\' then
      match escape? s with
      | some k => (templateChars? n (s.drop k)).map (1 + k + ·)
      | none => none
    else if c = '$' && s.head? = some '\x7b' then some 0
    else (templateChars? n s).map (1 + ·)

/-! ### Regular expressions -/

/-- The length of a pattern up to and with its closing slash; `inSet` tells whether it is inside of
brackets. -/
def patternRest? (inSet : Bool) : List Char → Option Nat
  | [] => none
  | '\\' :: c :: s => if c = '\n' then none else (patternRest? inSet s).map (2 + ·)
  | c :: s =>
    if c = '\n' then none
    else if c = '/' && !inSet then some 1
    else
      let inSet := if c = '[' then true else if c = ']' then false else inSet
      (patternRest? inSet s).map (1 + ·)

/-- A regular expression with its flags. -/
def regex? : List Char → Option Nat
  | '/' :: s =>
    (patternRest? false s).map fun n =>
      1 + n + ((s.drop n).takeWhile fun c => 'a' ≤ c && c ≤ 'z').length
  | _ => none

/-! ### Comments -/

/-- The length of a comment of several lines after its opening, up to and with its end. -/
def blockRest? : List Char → Option Nat
  | '*' :: '/' :: _ => some 2
  | _ :: s => (blockRest? s).map (1 + ·)
  | [] => none

/-- A comment. -/
def comment? : List Char → Option Nat
  | '/' :: '/' :: s => some (2 + (s.takeWhile (! isBreak ·)).length)
  | '/' :: '*' :: s => (blockRest? s).map (2 + ·)
  | _ => none

/-- A comment of the older form, which reaches to the end of its line. -/
def markupComment? (s : List Char) : Option Nat :=
  match s with
  | '<' :: '!' :: '-' :: '-' :: _ | '-' :: '-' :: '>' :: _ =>
    some (s.takeWhile (! isBreak ·)).length
  | _ => none

/-! ### Operators -/

/-- Marks of more than one character, longer ones first. -/
def longMarks : List String :=
  [">>>=", "...", "===", "!==", "**=", "<<=", ">>=", ">>>", "&&=", "||=", "??=", "=>", "==", "!=",
    "<=", ">=", "&&", "||", "??", "?.", "++", "--", "+=", "-=", "*=", "/=", "%=", "&=", "|=", "^=",
    "<<", ">>", "**"]

/-- Whether a mark stands at the start of a text. An optional access is no number after a question
mark. -/
def startsWithMark (s : List Char) (mark : String) : Bool :=
  mark.toList.isPrefixOf s &&
  !(mark = "?." && ((s.drop 2).head?.map Char.isDigit).getD false)

/-- The longest mark at the start of a text. -/
def mark? (s : List Char) : Option String :=
  match s with
  | [] => none
  | c :: _ =>
    match longMarks.find? (startsWithMark s) with
    | some m => some m
    | none => if isMarkChar c then some c.toString else none

end Trellis.Syntax.Lexeme
