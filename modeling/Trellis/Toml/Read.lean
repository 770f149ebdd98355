import Trellis.Toml.Value

/-! # Reading the settings format

`Toml.read?` reads a document. It is split into sections, one for each header; a section is built
from its keys alone and then put at its place in the document.

* Readers take a list of characters and give what they read and what follows.
* Values nest at most `depthLimit` deep, and keys have at most as many parts. -/

namespace Trellis.Toml

open Decimal (Binary natOfDigits)

/-- How deep values may be nested. -/
def depthLimit : Nat := 79

/-! ### Blanks and comments -/

/-- A blank inside a line. -/
def isSpace (c : Char) : Bool := c = ' ' || c = '\t'

/-- Skips blanks inside a line. -/
def skipSpaces (s : List Char) : List Char := s.dropWhile isSpace

/-- Whether a character may stand in a comment. -/
def isCommentChar (c : Char) : Bool :=
  c = '\t' || (0x20 ≤ c.toNat && c.toNat ≠ 0x7F)

/-- What follows a line break. -/
def newline? : List Char → Option (List Char)
  | '\n' :: s => some s
  | '\r' :: '\n' :: s => some s
  | _ => none

/-- Skips a comment, if there is one. -/
def skipComment : List Char → List Char
  | '#' :: s => s.dropWhile isCommentChar
  | s => s

/-- What follows the end of a line, after blanks and perhaps a comment. -/
def lineEnd? (s : List Char) : Option (List Char) :=
  match skipComment (skipSpaces s) with
  | [] => some []
  | s => newline? s

/-- Skips blanks, line breaks and comments; `n` bounds the lines. -/
def skipLines : Nat → List Char → List Char
  | 0, s => s
  | n + 1, s =>
    let s := skipSpaces s
    match s with
    | '#' :: _ =>
      match newline? (skipComment s) with
      | some r => skipLines n r
      | none => s
    | _ =>
      match newline? s with
      | some r => skipLines n r
      | none => s

/-- Skips blanks, line breaks and comments. -/
def skipAll (s : List Char) : List Char := skipLines (s.length + 1) s

/-! ### Texts -/

/-- The value of a hexadecimal digit. -/
def hexValue? (c : Char) : Option Nat :=
  if c.isDigit then some (c.toNat - 48)
  else if 'a' ≤ c && c ≤ 'f' then some (c.toNat - 87)
  else if 'A' ≤ c && c ≤ 'F' then some (c.toNat - 55)
  else none

/-- The number of exactly `n` hexadecimal digits. -/
def readHex : Nat → Nat → List Char → Option (Nat × List Char)
  | 0, acc, s => some (acc, s)
  | _ + 1, _, [] => none
  | n + 1, acc, c :: s => (hexValue? c).bind fun d => readHex n (16 * acc + d) s

/-- The character of a code point. -/
def charOf? (n : Nat) : Option Char := if h : n.isValidChar then some (Char.ofNatAux n h) else none

/-- An escape after its backslash. -/
def readEscape : List Char → Option (Char × List Char)
  | 'b' :: s => some (Char.ofNat 8, s)
  | 't' :: s => some ('\t', s)
  | 'n' :: s => some ('\n', s)
  | 'f' :: s => some (Char.ofNat 12, s)
  | 'r' :: s => some ('\r', s)
  | '"' :: s => some ('"', s)
  | '\\' :: s => some ('\\', s)
  | 'u' :: s => (readHex 4 0 s).bind fun (n, s) => (charOf? n).map fun c => (c, s)
  | 'U' :: s => (readHex 8 0 s).bind fun (n, s) => (charOf? n).map fun c => (c, s)
  | _ => none

/-- Whether a character may stand in a text as it is. -/
def isPlain (c : Char) : Bool := isCommentChar c

/-- A text in double quotes after the opening quote; `n` bounds the characters. -/
def readBasic : Nat → List Char → Option (List Char × List Char)
  | 0, _ => none
  | n + 1, s =>
    match s with
    | '"' :: s => some ([], s)
    | '\\' :: s => (readEscape s).bind fun (c, s) => (readBasic n s).map fun (t, s) => (c :: t, s)
    | c :: s => if isPlain c then (readBasic n s).map fun (t, s) => (c :: t, s) else none
    | [] => none

/-- A text in single quotes after the opening quote. -/
def readPlain (s : List Char) : Option (List Char × List Char) :=
  let t := s.takeWhile fun c => isPlain c && c ≠ '\''
  match s.dropWhile fun c => isPlain c && c ≠ '\'' with
  | '\'' :: s => some (t, s)
  | _ => none

/-- Skips a line break right after the opening quotes of a text of several lines. -/
def skipFirstBreak (s : List Char) : List Char := (newline? s).getD s

/-- The closing quotes of a text of several lines: three, with up to two more that belong to the
text. Gives the quotes of the text. -/
def closing? (q : Char) (s : List Char) : Option (List Char × List Char) :=
  let quotes := s.takeWhile (· = q)
  if quotes.length < 3 then none
  else
    let inner := min (quotes.length - 3) 2
    some (List.replicate inner q, s.drop (inner + 3))

/-- What follows a backslash at the end of a line: the next character that is not blank. -/
def continuation? (s : List Char) : Option (List Char) :=
  (newline? (skipSpaces s)).map fun r => skipBlankLines r.length r
where
  /-- Skips blanks and line breaks; `n` bounds the lines. -/
  skipBlankLines : Nat → List Char → List Char
    | 0, s => s
    | n + 1, s =>
      let s := skipSpaces s
      match newline? s with
      | some r => skipBlankLines n r
      | none => s

/-- A text of several lines in double quotes after the opening quotes; `n` bounds the
characters. -/
def readBasicLines : Nat → List Char → Option (List Char × List Char)
  | 0, _ => none
  | n + 1, s =>
    match s with
    | '"' :: s' =>
      match closing? '"' s with
      | some found => some found
      | none => (readBasicLines n s').map fun (t, s) => ('"' :: t, s)
    | '\\' :: s' =>
      match continuation? s' with
      | some s => readBasicLines n s
      | none =>
        (readEscape s').bind fun (c, s) => (readBasicLines n s).map fun (t, s) => (c :: t, s)
    | [] => none
    | c :: s' =>
      match newline? s with
      | some s => (readBasicLines n s).map fun (t, s) => ('\n' :: t, s)
      | none =>
        if isPlain c then (readBasicLines n s').map fun (t, s) => (c :: t, s) else none

/-- A text of several lines in single quotes after the opening quotes; `n` bounds the
characters. -/
def readPlainLines : Nat → List Char → Option (List Char × List Char)
  | 0, _ => none
  | n + 1, s =>
    match s with
    | '\'' :: s' =>
      match closing? '\'' s with
      | some found => some found
      | none => (readPlainLines n s').map fun (t, s) => ('\'' :: t, s)
    | [] => none
    | c :: s' =>
      match newline? s with
      | some s => (readPlainLines n s).map fun (t, s) => ('\n' :: t, s)
      | none =>
        if isPlain c then (readPlainLines n s').map fun (t, s) => (c :: t, s) else none

/-- A text on one line. -/
def readLineText : List Char → Option (List Char × List Char)
  | '"' :: s => readBasic (s.length + 1) s
  | '\'' :: s => readPlain s
  | _ => none

/-- A text. -/
def readText : List Char → Option (List Char × List Char)
  | '"' :: '"' :: '"' :: s => readBasicLines (s.length + 1) (skipFirstBreak s)
  | '\'' :: '\'' :: '\'' :: s => readPlainLines (s.length + 1) (skipFirstBreak s)
  | s => readLineText s

/-! ### Keys -/

/-- Whether a character may stand in a key without quotes. -/
def isBare (c : Char) : Bool := c.isAlphanum || c = '_' || c = '-'

/-- One part of a key. -/
def readPart (s : List Char) : Option (String × List Char) :=
  match s.takeWhile isBare with
  | [] => (readLineText s).map fun (t, s) => (String.ofList t, s)
  | name => some (String.ofList name, s.dropWhile isBare)

/-- The parts of a key, with blanks around the dots; `n` bounds their number. -/
def readKey : Nat → List Char → Option (List String × List Char)
  | 0, _ => none
  | n + 1, s =>
    (readPart (skipSpaces s)).bind fun (name, s) =>
      match skipSpaces s with
      | '.' :: s => (readKey n s).map fun (names, s) => (name :: names, s)
      | s => some ([name], s)

/-! ### Numbers -/

/-- Digits with single underscores between them; what is read has no underscores. -/
def readDigits (isDigit : Char → Bool) : List Char → List Char × List Char
  | '_' :: c :: s =>
    if isDigit c then
      let (ds, s) := readDigits isDigit s
      (c :: ds, s)
    else ([], '_' :: c :: s)
  | c :: s =>
    if isDigit c then
      let (ds, s) := readDigits isDigit s
      (c :: ds, s)
    else ([], c :: s)
  | [] => ([], [])

/-- At least one digit, then digits and underscores. -/
def readNumber? (isDigit : Char → Bool) (s : List Char) : Option (List Char × List Char) :=
  match s with
  | c :: _ => if isDigit c then some (readDigits isDigit s) else none
  | [] => none

/-- A sign, if there is one. -/
def readSign : List Char → List Char × List Char
  | '+' :: s => (['+'], s)
  | '-' :: s => (['-'], s)
  | s => ([], s)

/-- A signed whole number without leading zeros. -/
def readDecimal? (s : List Char) : Option (List Char × List Char × List Char) :=
  let (sign, s) := readSign s
  match s with
  | '0' :: s => some (sign, ['0'], s)
  | s => (readNumber? Char.isDigit s).map fun (ds, s) => (sign, ds, s)

/-- A part that starts with a mark, if it is there and complete. -/
def readAfter? (marks : List Char) (signed : Bool) : List Char →
    Option (List Char × List Char)
  | c :: s =>
    if marks.contains c then
      let (sign, s) := if signed then readSign s else ([], s)
      (readNumber? Char.isDigit s).map fun (ds, s) => (c :: sign ++ ds, s)
    else none
  | [] => none

/-- The name of infinity or of no number. -/
def readNamed? (s : List Char) : Option (Binary × List Char) :=
  let (sign, s) := readSign s
  match s with
  | 'i' :: 'n' :: 'f' :: s => some (.infinite (sign = ['-']), s)
  | 'n' :: 'a' :: 'n' :: s => some (.notANumber, s)
  | _ => none

/-- A number with a point or an exponent. A positive number beyond the range is refused. -/
def readFloat? (s : List Char) : Option (Binary × List Char) :=
  match readDecimal? s with
  | none => none
  | some (sign, whole, s) =>
    let parts :=
      match readAfter? ['e', 'E'] true s with
      | some (power, s) => some (power, s)
      | none =>
        (readAfter? ['.'] false s).map fun (places, s) =>
          match readAfter? ['e', 'E'] true s with
          | some (power, s) => (places ++ power, s)
          | none => (places, s)
    parts.bind fun (more, s) =>
      match Binary.read? (sign ++ whole ++ more) with
      | some (.infinite false) => none
      | some x => some (x, s)
      | none => none

/-- The number that digits of a base denote. -/
def natOfBase (base : Nat) (ds : List Char) : Nat :=
  ds.foldl (fun n c => base * n + (hexValue? c).getD 0) 0

/-- A whole number in the range of 64 bits with a sign. -/
def inRange? (n : Int) : Option Int :=
  if -(Nat.pow 2 63 : Int) ≤ n ∧ n < (Nat.pow 2 63 : Int) then some n else none

/-- A whole number with the digits of a base. -/
def readBase? (base : Nat) (isDigit : Char → Bool) (s : List Char) : Option (Int × List Char) :=
  (readNumber? isDigit s).bind fun (ds, s) => (inRange? (natOfBase base ds)).map fun n => (n, s)

/-- A whole number. -/
def readInteger? : List Char → Option (Int × List Char)
  | '0' :: 'x' :: s => readBase? 16 (fun c => (hexValue? c).isSome) s
  | '0' :: 'o' :: s => readBase? 8 (fun c => '0' ≤ c && c ≤ '7') s
  | '0' :: 'b' :: s => readBase? 2 (fun c => c = '0' || c = '1') s
  | s =>
    (readDecimal? s).bind fun (sign, ds, s) =>
      let n : Int := natOfDigits ds
      (inRange? (if sign = ['-'] then -n else n)).map fun n => (n, s)

/-! ### Dates and times -/

/-- A number of exactly `n` digits. -/
def readFixed? (n : Nat) (s : List Char) : Option (Nat × List Char) :=
  let ds := s.take n
  if ds.length = n && ds.all Char.isDigit then some (natOfDigits ds, s.drop n) else none

/-- What follows a character. -/
def expect? (c : Char) : List Char → Option (List Char)
  | d :: s => if d = c then some s else none
  | [] => none

/-- The number of days of a month. -/
def daysOf (year month : Nat) : Nat :=
  if month = 2 then
    if year % 4 = 0 && (year % 100 ≠ 0 || year % 400 = 0) then 29 else 28
  else if month = 4 || month = 6 || month = 9 || month = 11 then 30
  else 31

/-- A date. -/
def readDate? (s : List Char) : Option (List Char) := do
  let (year, s) ← readFixed? 4 s
  let s ← expect? '-' s
  let (month, s) ← readFixed? 2 s
  let s ← expect? '-' s
  let (day, s) ← readFixed? 2 s
  if 1 ≤ month && month ≤ 12 && 1 ≤ day && day ≤ daysOf year month then some s else none

/-- A time of day. -/
def readTime? (s : List Char) : Option (List Char) := do
  let (hour, s) ← readFixed? 2 s
  let s ← expect? ':' s
  let (minute, s) ← readFixed? 2 s
  let s ← expect? ':' s
  let (second, s) ← readFixed? 2 s
  if 23 < hour || 59 < minute || 60 < second then none
  else
    match s with
    | '.' :: c :: r => if c.isDigit then some (r.dropWhile Char.isDigit) else none
    | s => some s

/-- The distance from universal time, if it is written. -/
def skipOffset (s : List Char) : Option (List Char) :=
  match s with
  | c :: r =>
    if c = 'Z' || c = 'z' then some r
    else if c = '+' || c = '-' then do
      let (hour, r) ← readFixed? 2 r
      let r ← expect? ':' r
      let (minute, r) ← readFixed? 2 r
      if 23 < hour || 59 < minute then none else some r
    else some s
  | [] => some []

/-- A date, a time, or both. -/
def readMoment? (s : List Char) : Option (List Char) :=
  match readDate? s with
  | none => readTime? s
  | some r =>
    match r with
    | c :: r' =>
      if c = 'T' || c = 't' || c = ' ' then
        match readTime? r' with
        | some r => skipOffset r
        | none => some r
      else some r
    | [] => some []

/-- Whether a text starts like a date or a time. -/
def looksLikeMoment (s : List Char) : Bool :=
  ((readFixed? 4 s).bind fun r => expect? '-' r.2).isSome ||
    ((readFixed? 2 s).bind fun r => expect? ':' r.2).isSome

/-! ### Values -/

/-- A value that holds no other values. -/
def readScalar (s : List Char) : Option (Toml × List Char) :=
  match s with
  | [] => none
  | c :: _ =>
    if c = '"' || c = '\'' then (readText s).map fun (t, s) => (.string (String.ofList t), s)
    else if c.isDigit || c = '+' || c = '-' then
      if looksLikeMoment s then
        (readMoment? s).map fun r => (.moment (String.ofList (s.take (s.length - r.length))), r)
      else
        match readFloat? s with
        | some (x, s) => some (.float x, s)
        | none =>
          match readNamed? s with
          | some (x, s) => some (.float x, s)
          | none => (readInteger? s).map fun (n, s) => (.integer n, s)
    else
      match s with
      | 't' :: 'r' :: 'u' :: 'e' :: s => some (.boolean true, s)
      | 'f' :: 'a' :: 'l' :: 's' :: 'e' :: s => some (.boolean false, s)
      | s => (readNamed? s).map fun (x, s) => (.float x, s)

mutual

/-- A value; `n` bounds the steps, `depth` the levels inside. -/
def readValue : Nat → Nat → List Char → Option (Toml × List Char)
  | 0, _, _ => none
  | n + 1, depth, s =>
    match s with
    | '[' :: s =>
      if depth = 0 then none
      else (readItems n (depth - 1) (skipAll s)).map fun (items, s) => (.array items, s)
    | '\x7b' :: s =>
      if depth = 0 then none
      else
        match skipSpaces s with
        | '\x7d' :: s => some (.table [], s)
        | s =>
          (readPairs n (depth - 1) s).bind fun (pairs, s) =>
            (addValues [] pairs).map fun entries => (.table (Draft.finishEntries entries), s)
    | s => readScalar s

/-- The items of an array up to the closing bracket, from where the next may begin. -/
def readItems : Nat → Nat → List Char → Option (List Toml × List Char)
  | 0, _, _ => none
  | n + 1, depth, s =>
    match s with
    | ']' :: s => some ([], s)
    | s =>
      match readValue n depth s with
      | none => none
      | some (v, s) =>
        match skipAll s with
        | ',' :: s => (readItems n depth (skipAll s)).map fun (vs, s) => (v :: vs, s)
        | ']' :: s => some ([v], s)
        | _ => none

/-- The pairs of a table on one line up to the closing brace. -/
def readPairs : Nat → Nat → List Char → Option (List (List String × String × Toml) × List Char)
  | 0, _, _ => none
  | n + 1, depth, s =>
    match readKey depthLimit s with
    | none => none
    | some (key, s) =>
      match skipSpaces s with
      | '=' :: s =>
        match readValue n depth (skipSpaces s) with
        | none => none
        | some (v, s) =>
          let pair := (key.dropLast, key.getLast?.getD "", v)
          match skipSpaces s with
          | ',' :: s => (readPairs n depth s).map fun (pairs, s) => (pair :: pairs, s)
          | '\x7d' :: s => some ([pair], s)
          | _ => none
      | _ => none

end

/-! ### Documents -/

/-- A part of a document between headers. -/
structure Section where
  /-- Whether the header may be repeated. -/
  repeated : Bool
  /-- The header's names; the first section has none. -/
  path : List String
  /-- The keys and values, the last one first. -/
  pairs : List (List String × String × Toml)

/-- A line with a key and its value, without its end. -/
def readPair (s : List Char) : Option ((List String × String × Toml) × List Char) :=
  (readKey depthLimit s).bind fun (key, s) =>
    match skipSpaces s with
    | '=' :: s =>
      let s := skipSpaces s
      (readValue (2 * s.length + 2) depthLimit s).map fun (v, s) =>
        ((key.dropLast, key.getLast?.getD "", v), s)
    | _ => none

/-- A header without its end. -/
def readHeader : List Char → Option ((Bool × List String) × List Char)
  | '[' :: '[' :: s =>
    (readKey depthLimit s).bind fun (key, s) =>
      match skipSpaces s with
      | ']' :: ']' :: s => some ((true, key), s)
      | _ => none
  | '[' :: s =>
    (readKey depthLimit s).bind fun (key, s) =>
      match skipSpaces s with
      | ']' :: s => some ((false, key), s)
      | _ => none
  | _ => none

/-- The sections of a document, the last one first; `n` bounds the lines. -/
def readSections : Nat → List Section → List Char → Option (List Section)
  | 0, _, _ => none
  | n + 1, done, s =>
    match lineEnd? s with
    | some [] => some done
    | some r => readSections n done r
    | none =>
      let s := skipSpaces s
      match s with
      | '[' :: _ =>
        match readHeader s with
        | none => none
        | some ((repeated, path), r) =>
          match lineEnd? r with
          | some r => readSections n (⟨repeated, path, []⟩ :: done) r
          | none => none
      | s =>
        match readPair s, done with
        | some (pair, r), last :: earlier =>
          match lineEnd? r with
          | some r => readSections n ({ last with pairs := pair :: last.pairs } :: earlier) r
          | none => none
        | _, _ => none

/-- Puts a section at its place in a document. -/
def addSection (doc : List (String × Draft)) (sec : Section) : Option (List (String × Draft)) :=
  match sec.path.getLast? with
  | none => addValues doc sec.pairs.reverse
  | some name =>
    change false (fun _ entries =>
      match find? name entries with
      | none =>
        (addValues [] sec.pairs.reverse).map fun sub =>
          put name (if sec.repeated then .tables [sub] else .table .header sub) entries
      | some (.table .implied sub) =>
        if sec.repeated then none
        else
          (addValues sub sec.pairs.reverse).map fun sub =>
            put name (.table .header sub) (remove name entries)
      | some (.tables earlier) =>
        if sec.repeated then
          (addValues [] sec.pairs.reverse).map fun sub =>
            put name (.tables (sub :: earlier)) entries
        else none
      | some _ => none) sec.path.dropLast .header doc

/-- Puts sections into a document one after another. -/
def addSections (doc : List (String × Draft)) : List Section → Option (List (String × Draft))
  | [] => some doc
  | sec :: rest => (addSection doc sec).bind (addSections · rest)

/-- Reads a document, which may begin with a byte order mark. -/
def read? (text : String) : Option (List (String × Toml)) :=
  let s := match text.toList with
    | c :: s => if c.toNat = 0xFEFF then s else c :: s
    | [] => []
  (readSections (s.length + 2) [⟨false, [], []⟩] s).bind fun sections =>
    (addSections [] sections.reverse).map Draft.finishEntries

end Trellis.Toml
