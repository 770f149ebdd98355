import Trellis.Syntax.Draft
import Trellis.Syntax.Lexeme

/-! # Reading sources

`Reader` is a function that reads a part of a source, or fails and leaves nothing behind. Blanks and
comments stand before a token; they are passed over when the token is read.

* `token`, `op`, `keyword`, `name` read single tokens: exactly these characters, this operator and
  no longer one, this word, any word.
* `build` makes a node of what is read, `extend` a node around one that is read already.
* `semicolon` reads the end of a statement, which may be left out at a line break. -/

namespace Trellis.Syntax

/-- Where reading stands in a source. -/
structure Position (source : List Char) where
  /-- The number of characters of the whole source. It bounds every loop of a reader. -/
  size : Nat
  /-- What is left of the source. -/
  rest : List Char
  /-- The number of characters read. -/
  place : Nat
  /-- The line. -/
  line : Nat
  /-- The comments passed over, the last one first. -/
  comments : List Span
  /-- What is left is the source without the characters read. -/
  rest_eq : rest = source.drop place

/-- A function that reads a part of a source. -/
abbrev Reader (source : List Char) (α : Type) := StateT (Position source) Option α

variable {source : List Char}

namespace Position

/-- What is left after one more character. -/
theorem tail_eq {p : Position source} {c : Char} {rest : List Char} (h : p.rest = c :: rest) :
    rest = source.drop (p.place + 1) := by
  rw [← List.tail_drop, ← p.rest_eq, h, List.tail_cons]

/-- The position after `n` characters. -/
def advance : Nat → Position source → Position source
  | 0, p => p
  | n + 1, p =>
    match h : p.rest with
    | [] => p
    | c :: rest =>
      advance n
        { p with
          rest
          place := p.place + 1
          line := if c = '\n' then p.line + 1 else p.line
          rest_eq := tail_eq h }

/-- The position after a comment of `n` characters, which is remembered. -/
def advanceComment (n : Nat) (p : Position source) : Position source :=
  let q := p.advance n
  { q with comments := ⟨p.place, q.place, p.line⟩ :: p.comments }

/-- The position after blanks and comments; `fuel` bounds their number. -/
def skipFuel : Nat → Position source → Position source
  | 0, p => p
  | fuel + 1, p =>
    match p.rest with
    | [] => p
    | c :: _ =>
      if Lexeme.isSpace c then skipFuel fuel (p.advance 1)
      else
        match Lexeme.comment? p.rest with
        | some n => skipFuel fuel (p.advanceComment n)
        | none => p

/-- The position after blanks and comments. -/
def skip (p : Position source) : Position source := skipFuel (p.size + 1) p

/-- The start of a source. -/
def start (source : List Char) : Position source := ⟨source.length, source, 0, 0, [], rfl⟩

end Position

namespace Reader

/-- Passes over blanks and comments. -/
def skip : Reader source Unit := modify Position.skip

/-- What follows blanks and comments, without passing over them. -/
def ahead : Reader source (List Char) := do return (← get).skip.rest

/-- What follows, blanks included. -/
def rest : Reader source (List Char) := do return (← get).rest

/-- A bound for the steps of any loop. -/
def limit : Reader source Nat := do return (← get).size + 1

/-- Goes on only if a condition holds. -/
def require (b : Bool) : Reader source Unit := if b then pure () else failure

/-- Passes over `n` characters. -/
def take (n : Nat) : Reader source Span := do
  let p ← get
  let q := p.advance n
  set q
  return ⟨p.place, q.place, p.line⟩

/-- Succeeds without reading if the reader would fail. -/
def failing (r : Reader source Unit) : Reader source Unit := do
  let p ← get
  match r.run p with
  | some _ => failure
  | none => pure ()

/-- Succeeds without reading if the reader would succeed. -/
def lookahead {α : Type} (r : Reader source α) : Reader source Unit := do
  let p ← get
  match r.run p with
  | some _ => pure ()
  | none => failure

/-- Reads if it can, and tells whether it did. -/
def accept {α : Type} (r : Reader source α) : Reader source Bool :=
  (do let _ ← r; return true) <|> pure false

/-- Reads as often as it can, at most `n` times. -/
def manyFuel {α : Type} (r : Reader source α) : Nat → Reader source (List α)
  | 0 => pure []
  | n + 1 => do
    match ← optional r with
    | none => pure []
    | some a =>
      let as ← manyFuel r n
      return a :: as

/-- Reads as often as it can. -/
def many {α : Type} (r : Reader source α) : Reader source (List α) := do
  manyFuel r (← limit)

/-! ### Tokens -/

/-- Exactly these characters, after blanks. -/
def token (s : String) : Reader source Span := do
  skip
  if s.toList.isPrefixOf (← rest) then take s.length else failure

/-- This operator, and no longer one. -/
def op (s : String) : Reader source Span := do
  skip
  if Lexeme.mark? (← rest) = some s then take s.length else failure

/-- One of some operators. -/
def anyOp (ss : List String) : Reader source (String × Span) := do
  skip
  match Lexeme.mark? (← rest) with
  | some m => if ss.contains m then return (m, ← take m.length) else failure
  | none => failure

/-- The length of a lexeme after blanks, read as a node. -/
def lexeme (kind : Kind) (length? : List Char → Option Nat) : Reader source Draft := do
  skip
  match length? (← rest) with
  | some n => return .leaf kind (← take n)
  | none => failure

/-- The word ahead. -/
def wordAhead : Reader source (Option String) := do
  let s ← ahead
  return (Lexeme.word? s).map fun n => String.ofList (s.take n)

/-- Any word. -/
def word : Reader source (String × Span) := do
  skip
  let s ← rest
  match Lexeme.word? s with
  | some n => return (String.ofList (s.take n), ← take n)
  | none => failure

/-- This word. -/
def keyword (s : String) : Reader source Span := do
  let (w, span) ← word
  if w = s then return span else failure

/-- One of some words. -/
def anyKeyword (ss : List String) : Reader source (String × Span) := do
  let (w, span) ← word
  if ss.contains w then return (w, span) else failure

/-- Any word as a node. -/
def name (kind : Kind) : Reader source Draft := do
  let (_, span) ← word
  return .leaf kind span

/-- A mark that is kept. -/
def marked (r : Reader source Span) : Reader source Draft := do return .leaf .mark (← r)

/-- The character ahead. -/
def charAhead : Reader source (Option Char) := do return (← ahead).head?

/-- Whether this character is ahead. -/
def isAhead (c : Char) : Reader source Bool := do return (← charAhead) = some c

/-! ### Nodes -/

/-- A node of what is read. -/
def build (kind : Kind) (r : Reader source (List Draft)) : Reader source Draft := do
  skip
  let p ← get
  let ds ← r
  let q ← get
  return .node kind .none ⟨p.place, q.place, p.line⟩ ds

/-- A node around one that is read already and what is read now. -/
def extend (kind : Kind) (first : Draft) (r : Reader source (List Draft)) : Reader source Draft := do
  let ds ← r
  let q ← get
  return .node kind .none { first.span with stop := q.place } ds

/-- A part that may be missing. -/
def maybe (r : Reader source Draft) : Reader source (List Draft) := do
  return (← optional r).toList

/-- Parts between commas, of which any may be missing. -/
def looseList (r : Reader source Draft) : Reader source (List Draft) := do
  let first ← maybe r
  let more ← many (do let _ ← op ","; maybe r)
  return first ++ more.flatten

/-- At least one part, with commas between the parts. -/
def list1 (r : Reader source Draft) : Reader source (List Draft) := do
  let first ← r
  let more ← many (do let _ ← op ","; r)
  return first :: more

/-- Parts with commas between them, and perhaps one at the end. -/
def list (r : Reader source Draft) : Reader source (List Draft) :=
  (do
    let ds ← list1 r
    let _ ← optional (op ",")
    return ds) <|> pure []

end Reader

/-! ### Ends of statements -/

/-- What a statement's end depends on. -/
structure EndRule where
  /-- Whether the source may have type ascriptions. -/
  typed : Bool
  /-- Whether what was read last is an expression, so that an operator could follow. -/
  afterExpression : Bool
  /-- Whether a body could follow. -/
  afterSignature : Bool

namespace EndRule

/-- Blanks and comments at the start of a text, passed over. -/
def dropTrivia : Nat → List Char → List Char
  | 0, s => s
  | n + 1, s =>
    match s with
    | [] => []
    | c :: r =>
      if Lexeme.isSpace c then dropTrivia n r
      else
        match Lexeme.comment? s with
        | some k => dropTrivia n (s.drop k)
        | none => s

/-- Whether the rest of a word is exactly this, or more letters follow. -/
def continues (letters : String) (s : List Char) : Bool :=
  match Lexeme.word? s with
  | some n => String.ofList (s.take n) = letters
  | none => false

/-- Whether a line that begins like this may go on with the statement before it. -/
def goesOn (rule : EndRule) (s : List Char) : Bool :=
  match s with
  | [] => false
  | c :: r =>
    if "\x60,:;*%><=?^|&/".toList.contains c then true
    else if c = '.' then rule.typed || !(r.head?.map Char.isDigit).getD false
    else if c = '(' || c = '[' then !rule.typed || rule.afterExpression
    else if c = '\x7b' then rule.afterSignature
    else if c = '+' || c = '-' then r.head? ≠ some c
    else if c = '!' then r.head? = some '='
    else continues "in" s || continues "instanceof" s

/-- Whether a statement may end here without a semicolon; `n` bounds the characters looked at. -/
def endsAt (rule : EndRule) : Nat → List Char → Bool
  | 0, _ => false
  | n + 1, s =>
    match s with
    | [] => true
    | '\x7d' :: r =>
      !(rule.typed && !rule.afterExpression && (r.dropWhile Lexeme.isSpace).head? = some ':')
    | c :: r =>
      if Lexeme.isBreak c && c ≠ '\r' then !rule.goesOn (dropTrivia r.length r)
      else if Lexeme.isSpace c then endsAt rule n r
      else
        match Lexeme.comment? s with
        | some k => endsAt rule n (s.drop k)
        | none => false

end EndRule

namespace Reader

/-- The end of a statement: a semicolon, or a place where it may be left out. -/
def semicolon (rule : EndRule) : Reader source Unit :=
  (do let _ ← op ";"; return ()) <|> (do
    let s ← rest
    require (rule.endsAt (s.length + 1) s))

end Reader

end Trellis.Syntax
