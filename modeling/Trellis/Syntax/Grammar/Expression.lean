import Trellis.Syntax.Grammar.Function

/-! # Expressions

From the tightest to the loosest: operands with their members and calls, operators by level, the
choice by `?`. Functions and assignments are operands that take in all that follows.

Where two readings are possible, the order of trials decides: an arrow function before a bracket, an
object before a pattern, a call's type arguments before a comparison. -/

namespace Trellis.Syntax.Grammar

open Reader

variable {source : List Char} (g : Grammar source)

/-! ### Objects and arrays -/

/-- All members or elements of a value. -/
def spread : Reader source Draft := build .spreadElement do
  let _ ← op "..."
  return [← g.expression]

/-- A member of an object. -/
def objectMember : Reader source Draft :=
  g.spread <|>
  build .pair (do
    let key ← g.memberName
    let _ ← op ":"
    return [key.as .key, (← g.expression).as .value]) <|>
  g.methodWith [] <|>
  (do return (← variableName).retype .shorthandProperty)

/-- An object. -/
def object : Reader source Draft := build .object do
  let _ ← op "\x7b"
  let members ← looseList g.objectMember
  let _ ← op "\x7d"
  return members

/-- An array. -/
def array : Reader source Draft := build .array do
  let _ ← op "["
  let elements ← looseList (g.spread <|> g.expression)
  let _ ← op "]"
  return elements

/-! ### Simple operands -/

/-- An expression in parentheses. -/
def parenthesized : Reader source Draft := build .parenthesizedExpression do
  let _ ← op "("
  let e ← g.expressions
  let t ← if g.typed then maybe g.typeAscription else pure []
  let _ ← op ")"
  return e :: t.map (·.as .type)

/-- A word that stands for a value. -/
def valueWord : Reader source Draft := do
  let (w, span) ← word
  match [("this", Kind.this), ("super", .super), ("true", .true), ("false", .false),
      ("null", .null), ("undefined", .undefined)].lookup w with
  | some k => return .leaf k span
  | none => failure

/-- A property of the running code. -/
def metaProperty : Reader source Draft := build .metaProperty do
  let _ ←
    (do let _ ← keyword "new"; let _ ← op "."; keyword "target") <|>
    (do let _ ← keyword "import"; let _ ← op "."; keyword "meta")
  return []

/-- The word for modules loaded at run time, before its arguments. -/
def importWord : Reader source Draft := do
  let span ← keyword "import"
  lookahead (op "(")
  return .leaf .importWord span

/-- An operand without members and calls, but for constructions. -/
def simpleOperand : Reader source Draft := do
  match ← charAhead with
  | none => failure
  | some c =>
    if c = '(' then g.parenthesized
    else if c = '\x7b' then g.object
    else if c = '[' then g.array
    else if c = '\x60' then template .templateString g.expressions
    else if c = '"' || c = '\'' then string
    else if c = '/' then lexeme .regex Lexeme.regex?
    else if c = '#' then privateName
    else if c = '@' then g.classExpression
    else if c = '<' then
      require g.markup
      g.read .element
    else
      number <|> variableOrFunction
where
  /-- An operand that starts with a word. -/
  variableOrFunction : Reader source Draft :=
    g.functionExpression <|> variableName <|> valueWord <|> metaProperty <|> importWord <|>
    g.classExpression

/-! ### Members and calls -/

/-- The name of a member after a point. -/
def memberAccess (first : Draft) : Reader source Draft := extend .memberExpression first do
  let _ ← op "." <|> op "?."
  return [first.as .object, (← name .propertyIdentifier <|> privateName).as .property]

/-- A computed member. -/
def subscript (first : Draft) : Reader source Draft := extend .subscriptExpression first do
  let _ ← optional (op "?.")
  let _ ← op "["
  let i ← g.expressions
  let _ ← op "]"
  return [first.as .object, i]

/-- The first characters of an operand. -/
def startsOperand (s : List Char) : Bool :=
  match s with
  | [] => false
  | c :: _ =>
    (Lexeme.word? s).any (fun n =>
      !(["in", "instanceof", "as", "satisfies", "of"].contains (String.ofList (s.take n)))) ||
    (Lexeme.number? s).isSome || "\"'([\x7b/#@<!~+-".toList.contains c

/-- A call with its type arguments. -/
def call (first : Draft) : Reader source Draft := extend .callExpression first do
  let _ ← optional (op "?.")
  let ts ← if g.typed then maybe g.typeArguments else pure []
  let args ← g.arguments <|> template .templateString g.expressions
  return first :: ts.map (·.as .typeArguments) ++ [args]

/-- A function with its type arguments, if no operand follows. -/
def instantiation (first : Draft) : Reader source Draft := extend .instantiationExpression first do
  require g.typed
  let ts ← g.typeArguments
  require (!startsOperand (← ahead))
  return [first, ts.as .typeArguments]

/-- An expression said to be present. -/
def nonNull (first : Draft) : Reader source Draft := do
  require g.typed
  let line := (← get).line
  extend .nonNullExpression first do
    skip
    require ((← get).line = line)
    let _ ← op "!"
    return [first]

/-- The members and calls that follow an operand; `n` bounds them. -/
def accessRest (first : Draft) : Nat → Reader source Draft
  | 0 => pure first
  | n + 1 => do
    let next ← optional (
      memberAccess first <|> g.subscript first <|> g.call first <|> g.nonNull first <|>
      g.instantiation first)
    match next with
    | some d => accessRest d n
    | none => return first

/-- The members that follow an operand, without calls; `n` bounds them. -/
def membersRest (first : Draft) : Nat → Reader source Draft
  | 0 => pure first
  | n + 1 => do
    let next ← optional (memberAccess first <|> g.subscript first <|> g.nonNull first)
    match next with
    | some d => membersRest d n
    | none => return first

/-- Whether something can be assigned to. -/
def isPlace (d : Draft) : Bool :=
  [Kind.identifier, .memberExpression, .subscriptExpression, .nonNullExpression].contains d.kind

/-- A name with members and subscripts. -/
def place : Reader source Draft := do
  let d ← g.membersRest (← variableName <|> valueWord) (← limit)
  require (isPlace d)
  return d

/-- A construction. -/
def construction : Reader source Draft := build .newExpression do
  let _ ← keyword "new"
  let c ← g.membersRest (← g.simpleOperand) (← limit)
  let ts ← if g.typed then maybe g.typeArguments else pure []
  let args ← maybe g.arguments
  return c :: ts.map (·.as .typeArguments) ++ args

/-- An operand with its members and calls. -/
def access : Reader source Draft := do
  let first ← metaProperty <|> nested <|> g.simpleOperand
  g.accessRest first (← limit)
where
  /-- A construction, perhaps as the class of another one. -/
  nested : Reader source Draft := do
    lookahead (keyword "new")
    (do
      let outer ← build .newExpression (do
        let _ ← keyword "new"
        lookahead (keyword "new")
        return [← g.read .access])
      return outer) <|> g.construction

/-! ### Operands of operators -/

/-- An operator before an operand. -/
def unary (plain : Bool) : Reader source Draft :=
  build .unaryExpression (do
    let (_, span) ← anyOp ["!", "~", "+", "-"] <|> anyKeyword ["typeof", "void", "delete"]
    let e ← g.read (.operand plain)
    return [.node .mark .operator span [], e]) <|>
  build .updateExpression (do
    let (_, span) ← anyOp ["++", "--"]
    let e ← g.read (.operand plain)
    return [.node .mark .operator span [], e])

/-- The result of a promise. -/
def awaiting (plain : Bool) : Reader source Draft := build .awaitExpression do
  let _ ← keyword "await"
  return [← g.read (.operand plain)]

/-- A value handed out by a generator. -/
def yielding (plain : Bool) : Reader source Draft := build .yieldExpression do
  let _ ← keyword "yield"
  (do
    let _ ← op "*"
    return [← g.read (.expression plain)]) <|> maybe (g.read (.expression plain))

/-- A type before an expression. -/
def typeAssertion (plain : Bool) : Reader source Draft := build .typeAssertion do
  require (g.typed && !g.markup)
  let ts ← g.typeArguments
  return [ts, ← g.read (.operand plain)]

/-- The operators of assignments that compute with the old value. -/
def augmentedOperators : List String :=
  ["+=", "-=", "*=", "/=", "%=", "^=", "&=", "|=", ">>=", ">>>=", "<<=", "**=", "&&=", "||=",
    "??="]

/-- An assignment to a place or pattern that is read already. -/
def assignment (plain : Bool) (left : Draft) : Reader source Draft :=
  extend .assignmentExpression left do
    let _ ← op "="
    return [left.as .left, (← g.read (.expression plain)).as .right]

/-- An operand with what is assigned to it or counted. -/
def assigned (plain : Bool) : Reader source Draft := do
  let d ← g.access
  let line := (← get).line
  if isPlace d || d.kind = .parenthesizedExpression then
    g.assignment plain d <|>
    (extend .augmentedAssignment d do
      let (_, span) ← anyOp augmentedOperators
      let e ← g.read (.expression plain)
      return [d.as .left, .node .mark .operator span [], e.as .right]) <|>
    (extend .updateExpression d do
      skip
      require ((← get).line = line)
      let (_, span) ← anyOp ["++", "--"]
      return [d, .node .mark .operator span []]) <|>
    pure d
  else if d.kind = .object || d.kind = .array then
    failing (do let _ ← op "="; return ())
    return d
  else return d

/-- An operand of operators. -/
def operand (plain : Bool) : Reader source Draft :=
  g.arrowFunction plain <|> g.typeAssertion plain <|> g.unary plain <|> g.awaiting plain <|>
  g.yielding plain <|> g.assigned plain <|> (do
    let p ← g.bracketPattern
    g.assignment plain p)

/-! ### Operators -/

/-- The levels of operators, the loosest first. -/
def levels : List (List String) :=
  [["??"], ["||"], ["&&"], ["|"], ["^"], ["&"], ["==", "!=", "===", "!=="],
    ["<", "<=", ">", ">=", "in", "instanceof"], ["<<", ">>", ">>>"], ["+", "-"], ["*", "/", "%"],
    ["**"]]

/-- The operator ahead with its level. -/
def operatorAhead : Reader source (Nat × Span) := do
  let (w, span) ← anyOp levels.flatten <|> anyKeyword ["in", "instanceof"]
  match levels.findIdx? (·.contains w) with
  | some k => return (k, span)
  | none => failure

/-- The operators that follow an operand; `n` bounds them. -/
def operatorRest (plain : Bool) (level : Nat) (first : Draft) : Nat → Reader source Draft
  | 0 => pure first
  | n + 1 => do
    let next ← optional (
      (extend .binaryExpression first do
        let (k, span) ← operatorAhead
        require (level ≤ k)
        let right ← g.read (.operators plain (if k = 11 then k else k + 1))
        return [first.as .left, .node .mark .operator span [], right.as .right]) <|>
      (extend .asExpression first do
        require (g.typed && level = 0)
        let _ ← keyword "as"
        (do
          let _ ← keyword "const"
          return [first]) <|> (do return [first, ← g.type])) <|>
      (extend .satisfiesExpression first do
        require (g.typed && level = 0)
        let _ ← keyword "satisfies"
        return [first, ← g.type]))
    match next with
    | some d => operatorRest plain level d n
    | none => return first

/-- Operands with operators that bind at least as tightly as a level. -/
def operators (plain : Bool) (level : Nat) : Reader source Draft := do
  let first ← g.read (.operand plain)
  g.operatorRest plain level first (← limit)

/-- The side of a choice for a condition that holds. If the colon is missing after it, the colon may
have been taken for the ascription of an arrow function's result. -/
def consequence : Reader source Draft := do
  let p ← get
  let e ← g.expression
  if ← isAhead ':' then return e
  else
    require g.typed
    set p
    g.read (.expression true)

/-- An expression. -/
def fullExpression (plain : Bool) : Reader source Draft := do
  let c ← g.read (.operators plain 0)
  (extend .ternaryExpression c do
    let _ ← op "?"
    let yes ← g.consequence
    let _ ← op ":"
    let no ← g.read (.expression plain)
    return [c.as .condition, yes.as .consequence, no.as .alternative]) <|> pure c

end Trellis.Syntax.Grammar
