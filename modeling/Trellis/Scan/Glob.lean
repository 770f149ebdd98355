import Trellis.Text.Search

/-! # Glob patterns

Patterns for paths. A star and a question mark stay within one name; two stars between separators
stand for any number of names; braces list alternatives, brackets a class of characters, and a
backslash takes the next character as it is.

* A pattern is read into its alternatives, each a list of `Piece`s. It is read by characters and
  matched by bytes, so that a question mark stands for one byte.
* `Glob.matches` tells whether a whole path is of the form of one alternative. -/

namespace Trellis

namespace Glob

/-- A piece of a pattern. -/
inductive Piece where
  /-- This byte. -/
  | byte (b : UInt8)
  /-- Any byte but a separator. -/
  | any
  /-- Bytes within one name. -/
  | star
  /-- A byte of a class, or a byte outside of it. -/
  | oneOf (negated : Bool) (ranges : List (UInt8 × UInt8))
  /-- Any number of names before the rest. -/
  | leading
  /-- Everything below. -/
  | below
  /-- Any number of names between two separators. -/
  | between
  deriving DecidableEq, Repr

/-- The separator of names. -/
def slash : UInt8 := 47

namespace Piece

/-- What is left of a text after bytes within one name: all possibilities. -/
def afterStar : List UInt8 → List (List UInt8)
  | [] => [[]]
  | b :: s => (b :: s) :: (if b = slash then [] else afterStar s)

/-- What is left of a text after any separator. -/
def afterSlashes : List UInt8 → List (List UInt8)
  | [] => []
  | b :: s => (if b = slash then [s] else []) ++ afterSlashes s

/-- What is left of a text after any bytes: all possibilities. -/
def afterAll : List UInt8 → List (List UInt8)
  | [] => [[]]
  | b :: s => (b :: s) :: afterAll s

/-- What is left of a text after a piece: all possibilities. -/
def after : Piece → List UInt8 → List (List UInt8)
  | byte _, [] | any, [] | oneOf _ _, [] | below, [] | between, [] => []
  | byte b, c :: s => if b = c then [s] else []
  | any, c :: s => if c = slash then [] else [s]
  | star, s => afterStar s
  | oneOf negated ranges, c :: s =>
    if (ranges.any fun r => r.1 ≤ c && c ≤ r.2) != negated then [s] else []
  | leading, s =>
    s :: (match s with
      | c :: r => if c = slash then [r] else []
      | [] => []) ++ afterSlashes s
  | below, c :: s => if c = slash then afterAll s else []
  | between, c :: s => if c = slash then s :: afterSlashes s else []

end Piece

/-- Whether a whole text is made of such pieces. -/
def matchesPieces : List Piece → List UInt8 → Bool
  | [], s => s.isEmpty
  | p :: ps, s => (p.after s).any (matchesPieces ps)

/-! ### Reading patterns -/

/-- A part of a pattern while it is read. -/
inductive Part where
  /-- A piece. -/
  | piece (p : Piece)
  /-- A list of alternatives. -/
  | choice (alternatives : List (List Part))
  deriving Repr

/-- The bytes of a character. -/
def bytesOf (c : Char) : List UInt8 := (String.ofList [c]).toUTF8.toList

/-- A character as pieces. -/
def literal (c : Char) : List Part := (bytesOf c).map fun b => .piece (.byte b)

/-- The bytes of a range of characters: of the first character all but the last byte stand for
themselves, and so do all but the first byte of the last character. -/
def rangeBytes (r : Char × Char) : List (UInt8 × UInt8) :=
  let low := bytesOf r.1
  let high := bytesOf r.2
  let single (b : UInt8) : UInt8 × UInt8 := (b, b)
  if r.1 = r.2 then low.map single
  else
    low.dropLast.map single ++
      (match low.getLast?, high.head? with
      | some a, some b => [(a, b)]
      | _, _ => []) ++ high.tail.map single

/-- Sets the end of the last range, unless it comes before its start. -/
def closeRange (c : Char) : List (Char × Char) → Option (List (Char × Char))
  | [] => none
  | [(a, _)] => if c < a then none else some [(a, c)]
  | r :: rest => (closeRange c rest).map (r :: ·)

/-- The outcome of reading a class. -/
inductive ClassRead where
  /-- Its ranges and what follows. -/
  | closed (ranges : List (Char × Char)) (rest : List Char)
  /-- There is no closing bracket. -/
  | unclosed
  /-- A range ends before it starts. -/
  | invalid

/-- Reads the ranges of a class up to its closing bracket. -/
def readRanges (first inRange : Bool) (ranges : List (Char × Char)) : List Char → ClassRead
  | [] => .unclosed
  | c :: s =>
    if c = ']' && !first then
      .closed (if inRange then ranges ++ [('-', '-')] else ranges) s
    else if c = '-' && !first && !inRange then readRanges false true ranges s
    else if inRange then
      match closeRange c ranges with
      | some rs => readRanges false false rs s
      | none => .invalid
    else readRanges false false (ranges ++ [(c, c)]) s

/-- Reads a class after its opening bracket. -/
def readClass (s : List Char) : Bool × ClassRead :=
  match s with
  | c :: r => if c = '!' || c = '^' then (true, readRanges true false [] r)
    else (false, readRanges true false [] s)
  | [] => (false, .unclosed)

/-- Where reading stands: the alternatives of each open brace, the innermost first, each with the
parts read so far, the last one first. -/
abbrev Open := List (List (List Part))

/-- Adds parts at the end of the innermost alternative. -/
def Open.add (parts : List Part) : Open → Open
  | (alternative :: others) :: outer => ((parts.reverse ++ alternative) :: others) :: outer
  | stack => stack

/-- What two stars stand for, and how many characters after them belong to them. -/
inductive Stars where
  /-- Two single stars. -/
  | single
  /-- Any number of names; the separator after it, if there is one, belongs to it. -/
  | piece (p : Piece) (taken : Nat)

/-- Whether nothing has been read in the innermost alternative. -/
def Open.isFresh : Open → Bool
  | ([] :: _) :: _ => true
  | _ => false

/-- Whether a brace is open. -/
def Open.inBraces (stack : Open) : Bool := 1 < stack.length

/-- What two stars stand for between the character before and the text after. -/
def starsBetween (stack : Open) (before : Option Char) (s : List Char) : Stars :=
  if stack.isFresh then
    match s with
    | [] => .piece .leading 0
    | c :: _ => if c = '/' then .piece .leading 1 else .single
  else if before ≠ some '/' && !(stack.inBraces && (before = some ',' || before = some '\x7b')) then
    .single
  else
    match s with
    | [] => .piece .below 0
    | c :: _ =>
      if stack.inBraces && (c = ',' || c = '\x7d') then .piece .below 0
      else if c = '/' then .piece .between 1
      else .single

/-- Puts what two stars stand for in place of the separator before them. -/
def Open.addStars (p : Piece) : Open → Open
  | (alternative :: others) :: outer =>
    match alternative with
    | .piece .leading :: rest => ((.piece .leading :: rest) :: others) :: outer
    | .piece .below :: rest => ((.piece .below :: rest) :: others) :: outer
    | _ :: rest => ((.piece p :: rest) :: others) :: outer
    | [] => ([.piece p] :: others) :: outer
  | stack => stack

/-- Reads a pattern; `lenient` tells whether a bracket that is not closed stands for itself, `n`
bounds the steps. -/
def readParts (lenient : Bool) : (n : Nat) → Open → Option Char → List Char → Option (List Part)
  | 0, _, _, _ => none
  | _ + 1, stack, _, [] =>
    match stack with
    | [[parts]] => some parts.reverse
    | _ => none
  | n + 1, stack, before, c :: s =>
    let next (parts : List Part) (s : List Char) := readParts lenient n (stack.add parts) (some c) s
    match c with
    | '?' => next [.piece .any] s
    | '*' =>
      match s with
      | '*' :: r =>
        match starsBetween stack before r with
        | .single => readParts lenient n (stack.add [.piece .star, .piece .star]) (some '*') r
        | .piece .leading k =>
          readParts lenient n (stack.add [.piece .leading]) (some (if k = 0 then '*' else '/'))
            (r.drop k)
        | .piece p k =>
          readParts lenient n (stack.addStars p) (some (if k = 0 then '*' else '/')) (r.drop k)
      | _ => next [.piece .star] s
    | '[' =>
      match readClass s with
      | (negated, .closed ranges r) =>
        readParts lenient n (stack.add [.piece (.oneOf negated (ranges.flatMap rangeBytes))])
          (some ']') r
      | (_, .unclosed) => if lenient then next (literal c) s else none
      | (_, .invalid) => none
    | '\x7b' => readParts lenient n ([[]] :: stack) (some c) s
    | '\x7d' =>
      match stack with
      | alternatives :: outer :: more =>
        readParts lenient n
          (Open.add [.choice (alternatives.reverse.map List.reverse)] (outer :: more)) (some c) s
      | _ => none
    | ',' =>
      match stack with
      | alternatives :: outer :: more =>
        readParts lenient n (([] :: alternatives) :: outer :: more) (some c) s
      | _ => next (literal c) s
    | '\\' =>
      match s with
      | d :: r => readParts lenient n (stack.add (literal d)) (some d) r
      | [] => none
    | _ => next (literal c) s

mutual

/-- All lists of pieces that a part stands for. An alternative without pieces counts for nothing. -/
def forms : Part → List (List Piece)
  | .piece p => [[p]]
  | .choice alternatives =>
    match (expandEach alternatives).filter fun ps => !ps.isEmpty with
    | [] => [[]]
    | choices => choices

/-- All lists of pieces that parts stand for. -/
def expand : List Part → List (List Piece)
  | [] => [[]]
  | p :: rest => (forms p).flatMap fun ps => (expand rest).map (ps ++ ·)

/-- All lists of pieces that some alternatives stand for. -/
def expandEach : List (List Part) → List (List Piece)
  | [] => []
  | a :: as => expand a ++ expandEach as

end

end Glob

/-- A pattern: its alternatives. -/
structure Glob where
  /-- The alternatives. -/
  alternatives : List (List Glob.Piece)
  deriving DecidableEq, Repr

namespace Glob

/-- Reads a pattern; `lenient` tells whether a bracket that is not closed stands for itself. -/
def parse? (lenient : Bool) (pattern : String) : Option Glob :=
  let s := pattern.toList
  (readParts lenient (s.length + 1) [[[]]] none s).map fun parts =>
    match parts with
    | [.piece .leading] => ⟨[[.leading, .star]]⟩
    | _ => ⟨expand parts⟩

/-- Whether a whole path is of the form of the pattern. -/
def «matches» (g : Glob) (path : String) : Bool :=
  g.alternatives.any fun ps => matchesPieces ps path.toUTF8.toList

end Glob

end Trellis
