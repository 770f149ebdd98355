import Trellis.Syntax.Grammar.Module

/-! # Statements

A statement is told by its first word. Where that word may also be the name of a variable, the
statement is tried first and an expression after it. -/

namespace Trellis.Syntax.Grammar

open Reader

variable {source : List Char} (g : Grammar source)

/-- An expression as a statement. -/
def expressionStatement : Reader source Draft := build .expressionStatement do
  let e ← g.expressions
  g.endOfExpression
  return [e]

/-- A condition in parentheses. -/
def condition : Reader source Draft := do return (← g.parenthesized).as .condition

/-- The statement that another one governs. -/
def governed : Reader source Draft := do return (← g.read .statement).as .body

/-- A choice between statements. -/
def ifStatement : Reader source Draft := build .ifStatement do
  let _ ← keyword "if"
  let c ← g.condition
  let yes ← g.read .statement
  let no ← maybe (build .elseClause do
    let _ ← keyword "else"
    return [← g.read .statement])
  return [c, yes.as .consequence] ++ no.map (·.as .alternative)

/-- A choice by value. -/
def switchStatement : Reader source Draft := build .switchStatement do
  let _ ← keyword "switch"
  let v ← g.parenthesized
  let inCase : Reader source (List Draft) := do
    let ss ← many (do
      failing (do let _ ← anyKeyword ["case", "default"]; return ())
      (do olderComment; return []) <|> (do return [← g.read .statement]))
    return ss.flatten
  let body ← build .switchBody do
    let _ ← op "\x7b"
    let cases ← many (
      build .switchCase (do
        let _ ← keyword "case"
        let e ← g.expressions
        let _ ← op ":"
        return e.as .value :: (← inCase)) <|>
      build .switchDefault (do
        let _ ← keyword "default"
        let _ ← op ":"
        inCase))
    let _ ← op "\x7d"
    return cases
  return [v.as .value, body.as .body]

/-! ### Loops -/

/-- What a loop over keys or elements assigns to. A variable that is declared with `var` may have a
first value, in which no comparison stands outside of brackets. -/
def forInTarget : Reader source (List Draft) :=
  (do
    let _ ← keyword "var"
    let left ← g.bracketPattern <|> name .identifier
    let first ← maybe (do let _ ← op "="; g.read (.operators false 8))
    return left.as .left :: first) <|>
  (do
    let _ ← anyKeyword ["let", "const"]
    return [(← g.bracketPattern <|> name .identifier).as .left]) <|>
  (do return [(← g.bracketPattern <|> g.read .place).as .left])

/-- The header of a loop over keys or elements. -/
def forInHeader : Reader source (List Draft) := do
  let _ ← op "("
  let target ← g.forInTarget
  let (_, span) ← anyKeyword ["in", "of"]
  let right ← g.expressions
  let _ ← op ")"
  return target ++ [.node .mark .operator span [], right.as .right]

/-- The header of a loop with a counter. -/
def forHeader : Reader source (List Draft) := do
  let _ ← op "("
  let start ←
    (do let _ ← op ";"; return []) <|>
    (do return [← g.declarators .variableDeclaration ["var"] <|>
        g.declarators .lexicalDeclaration ["let", "const"]]) <|>
    (do
      let e ← g.expressions
      let _ ← op ";"
      return [e])
  let test ← maybe g.expressions
  let _ ← op ";"
  let step ← maybe g.expressions
  let _ ← op ")"
  return start ++ test.map (·.as .condition) ++ step

/-- A loop with `for`. -/
def forStatement : Reader source Draft :=
  build .forInStatement (do
    let _ ← keyword "for"
    let _ ← optional (keyword "await")
    let header ← g.forInHeader
    return header ++ [← g.governed]) <|>
  build .forStatement (do
    let _ ← keyword "for"
    let header ← g.forHeader
    return header ++ [← g.governed])

/-- A loop that tests first. -/
def whileStatement : Reader source Draft := build .whileStatement do
  let _ ← keyword "while"
  let c ← g.condition
  return [c, ← g.governed]

/-- A loop that tests last. -/
def doStatement : Reader source Draft := build .doStatement do
  let _ ← keyword "do"
  let b ← g.governed
  let _ ← keyword "while"
  let c ← g.condition
  let _ ← optional (op ";")
  return [b, c]

/-! ### Failures -/

/-- A block whose failures are handled. -/
def tryStatement : Reader source Draft := build .tryStatement do
  let _ ← keyword "try"
  let b ← g.block
  let handler ← maybe (build .catchClause do
    let _ ← keyword "catch"
    let p ← maybe (do
      let _ ← op "("
      let p ← g.bracketPattern <|> name .identifier
      let t ← if g.typed then maybe g.typeAscription else pure []
      let _ ← op ")"
      extend p.kind p (pure (p.children ++ t)))
    return p ++ [(← g.block).as .body])
  let last ← maybe (build .finallyClause do
    let _ ← keyword "finally"
    return [(← g.block).as .body])
  return b.as .body :: handler ++ last

/-! ### Jumps and others -/

/-- A statement of one word with an expression that may be missing. -/
def returnStatement : Reader source Draft := build .returnStatement do
  let _ ← keyword "return"
  (do g.endOfStatement; return []) <|> (do
    let e ← g.expressions
    g.endOfExpression
    return [e])

/-- A failure. -/
def throwStatement : Reader source Draft := build .throwStatement do
  let _ ← keyword "throw"
  let e ← g.expressions
  g.endOfExpression
  return [e]

/-- A jump out of a statement, perhaps a named one. -/
def jump (kind : Kind) (w : String) : Reader source Draft := build kind do
  let _ ← keyword w
  (do g.endOfStatement; return []) <|> (do
    let n ← name .statementIdentifier
    g.endOfStatement
    return [n])

/-- A statement with a name. -/
def labeledStatement : Reader source Draft := build .labeledStatement do
  let n ← name .statementIdentifier
  let _ ← op ":"
  return [n, ← g.governed]

/-- Whether a function or class with a name is ahead, which is no expression then. -/
def namedAhead : Reader source Unit :=
  lookahead (do
    let _ ← (do
      let _ ← functionStart
      return ()) <|> (do
      let _ ← keyword "class"
      return ())
    let (w, _) ← word
    require (!(["extends", "implements"].contains w)))

/-- An import or export. -/
def importOrExport : Reader source Draft := do
  match ← wordAhead with
  | some "import" => g.importStatement
  | some "export" => g.exportStatement
  | _ =>
    require (← isAhead '@')
    g.exportStatement

/-- A statement that starts with none of the words of statements. -/
def otherStatement : Reader source Draft :=
  g.importOrExport <|> g.declaration <|> g.labeledStatement <|> (do
    failing namedAhead
    g.expressionStatement)

/-- A statement. -/
def statement : Reader source Draft := do
  match ← charAhead with
  | none => failure
  | some ';' => build .emptyStatement (do let _ ← op ";"; return [])
  | some '\x7b' => g.block <|> g.expressionStatement
  | some _ =>
    match ← wordAhead with
    | some "if" => g.ifStatement
    | some "switch" => g.switchStatement
    | some "for" => g.forStatement
    | some "while" => g.whileStatement
    | some "do" => g.doStatement
    | some "try" => g.tryStatement
    | some "with" => build .withStatement do
      let _ ← keyword "with"
      let o ← g.parenthesized
      return [o.as .object, ← g.governed]
    | some "break" => g.jump .breakStatement "break"
    | some "continue" => g.jump .continueStatement "continue"
    | some "return" => g.returnStatement
    | some "throw" => g.throwStatement
    | some "debugger" => build .debuggerStatement do
      let _ ← keyword "debugger"
      g.endOfStatement
      return []
    | some "var" | some "const" => g.declaration
    | _ => g.otherStatement

end Trellis.Syntax.Grammar
