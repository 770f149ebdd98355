import Trellis.Syntax.Reading

/-! # The grammar's frame

The rules of the grammar refer to each other in circles. A rule is therefore written as a function
of a `Grammar`, which says how the central parts are read; the circle is closed at one place only,
where the depth of nesting is bounded.

* `Goal` names the central parts.
* The rules shared by all parts are here: names, literals, brackets. -/

namespace Trellis.Syntax

/-- A central part of the grammar. -/
inductive Goal where
  /-- An expression; when `plain`, an arrow function in it has no ascription of its result. -/
  | expression (plain : Bool)
  /-- An expression of operators that bind at least as tightly as a level. -/
  | operators (plain : Bool) (level : Nat)
  /-- An operand of operators. -/
  | operand (plain : Bool)
  /-- An operand with members, subscripts and calls. -/
  | access
  /-- A name with members and subscripts, which can be assigned to. -/
  | place
  /-- A statement. -/
  | statement
  /-- A type; when `breaks`, it ends at a line break where a new member could start. -/
  | type (breaks : Bool)
  /-- A type without binary operators. -/
  | primaryType (breaks : Bool)
  /-- A pattern. -/
  | pattern
  /-- A markup element. -/
  | element
  deriving DecidableEq, Repr

/-- How the central parts of a source are read, and what the dialect admits. -/
structure Grammar (source : List Char) where
  /-- Whether type ascriptions may be written. -/
  typed : Bool
  /-- Whether markup may be written. -/
  markup : Bool
  /-- Reads a central part. -/
  read : Goal → Reader source Draft

namespace Grammar

open Reader

variable {source : List Char} (g : Grammar source)

/-- An expression. -/
def expression : Reader source Draft := g.read (.expression false)

/-- A type inside of brackets. -/
def type : Reader source Draft := g.read (.type false)

/-- The end of a statement after an expression. -/
def endOfExpression : Reader source Unit := semicolon ⟨g.typed, true, false⟩

/-- The end of a statement after anything else. -/
def endOfStatement : Reader source Unit := semicolon ⟨g.typed, false, false⟩

/-- Expressions one after another, with commas. -/
def expressions : Reader source Draft := do
  let first ← g.expression
  let more ← many (do let _ ← op ","; g.expression)
  if more.isEmpty then return first else extend .sequenceExpression first (pure (first :: more))

/-! ### Names and literals -/

/-- A quoted text. -/
def string : Reader source Draft := lexeme .string Lexeme.string?

/-- A number. -/
def number : Reader source Draft := lexeme .number Lexeme.number?

/-- The words with which an operand can start, so that they name no variable there. -/
def operandWords : List String :=
  ["function", "class", "new", "this", "super", "null", "true", "false", "undefined", "import",
    "typeof", "void", "delete", "await", "yield"]

/-- The words with which only a statement can start. -/
def statementWords : List String :=
  ["if", "for", "while", "do", "switch", "try", "with", "break", "continue", "debugger", "return",
    "throw", "var", "const"]

/-- A name of a variable where an expression may stand. -/
def variableName : Reader source Draft := do
  let (w, span) ← word
  require (!operandWords.contains w)
  return .leaf .identifier span

/-- A private name. -/
def privateName : Reader source Draft := build .privateIdentifier do
  let _ ← token "#"
  let s ← rest
  match Lexeme.word? s with
  | some n =>
    let _ ← take n
    return []
  | none => failure

/-- The name of a member, perhaps computed. -/
def memberName : Reader source Draft :=
  name .propertyIdentifier <|> string <|> number <|> privateName <|>
  build .computedName do
    let _ ← op "["
    let e ← g.expression
    let _ ← op "]"
    return [e]

/-- The characters and substitutions of a template up to its closing quote; `n` bounds them. -/
def templateParts (part : Reader source Draft) : Nat → Reader source (List Draft)
  | 0 => failure
  | n + 1 => do
    let s ← rest
    match Lexeme.templateChars? (s.length + 1) s with
    | none => failure
    | some k =>
      let _ ← take k
      match ← rest with
      | '\x60' :: _ =>
        let _ ← take 1
        return []
      | _ =>
        let p ← get
        let _ ← take 2
        let e ← part
        let _ ← token "\x7d"
        let q ← get
        let more ← templateParts part n
        return .node .templateSubstitution .none ⟨p.place, q.place, p.line⟩ [e] :: more

/-- A text between back quotes with parts in it. -/
def template (kind : Kind) (part : Reader source Draft) : Reader source Draft := build kind do
  let _ ← token "\x60"
  templateParts part (← limit)

end Grammar

end Trellis.Syntax
