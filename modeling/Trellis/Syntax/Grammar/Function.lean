import Trellis.Syntax.Grammar.Markup

/-! # Functions and classes

Functions as expressions, arrow functions, methods, and what a class extends and holds. -/

namespace Trellis.Syntax.Grammar

open Reader

variable {source : List Char} (g : Grammar source)

/-! ### Functions -/

/-- Statements one after another. -/
def statements : Reader source (List Draft) := do
  let ss ← many ((do olderComment; return []) <|> (do return [← g.read .statement]))
  return ss.flatten

/-- Statements in braces. -/
def block : Reader source Draft := build .statementBlock do
  let _ ← op "\x7b"
  let ss ← g.statements
  let _ ← op "\x7d"
  return ss

/-- Whether a function is a generator, read after the word `function`. -/
def generatorMark : Reader source Bool := accept (op "*")

/-- The start of a function: whether it is a generator. -/
def functionStart : Reader source Bool := do
  let _ ← optional (do
    let _ ← keyword "async"
    lookahead (keyword "function"))
  let _ ← keyword "function"
  generatorMark

/-- The signature and body of a function. -/
def functionRest : Reader source (List Draft) := do
  let s ← g.signature false
  return s ++ [(← g.block).as .body]

/-- A function as an expression. -/
def functionExpression : Reader source Draft := do
  skip
  let p ← get
  let generator ← functionStart
  let n ← maybe (name .identifier)
  let parts ← g.functionRest
  let kind := if generator then Kind.generatorFunction else .functionExpression
  return .node kind .none ⟨p.place, (← get).place, p.line⟩ (n.map (·.as .name) ++ parts)

/-- What an arrow function does. -/
def arrowBody (plain : Bool) : Reader source Draft := do
  let _ ← op "=>"
  let b ← g.block <|> g.read (.expression plain)
  return b.as .body

/-- The parameters of an arrow function. -/
def arrowParameters (plain : Bool) : Reader source (List Draft) := do
  if g.typed then
    let ts ← maybe g.typeParameters
    let ps ← g.parameters
    let r ← if plain then pure [] else maybe (g.resultAscription false)
    return ts ++ [ps.as .parameters] ++ r.map (·.as .returnType)
  else
    return [(← g.parameters).as .parameters]

/-- An arrow function without the word `async`. -/
def simpleArrow (plain : Bool) : Reader source (List Draft) := do
  let ps ← (do
    let n ← variableName
    lookahead (op "=>")
    return [n.as .parameter]) <|> g.arrowParameters plain
  return ps ++ [← g.arrowBody plain]

/-- An arrow function. -/
def arrowFunction (plain : Bool) : Reader source Draft :=
  build .arrowFunction (do
    let _ ← keyword "async"
    g.simpleArrow plain) <|>
  build .arrowFunction (g.simpleArrow plain)

/-! ### Methods -/

/-- A method with its body; the words are those that may stand in front. -/
def methodWith (modifiers : List String) : Reader source Draft := build .methodDefinition do
  let _ ← many (memberModifier modifiers)
  let _ ← optional (memberModifier ["async"])
  let _ ← optional (memberModifier ["get", "set"] <|> (do let _ ← op "*"; return ()))
  let n ← g.memberName
  let mark ← if g.typed then maybe (marked (token "?")) else pure []
  let parts ← g.functionRest
  return n.as .name :: mark ++ parts

/-! ### Classes -/

/-- What a class extends and implements. -/
def classHeritage : Reader source Draft := build .classHeritage do
  if g.typed then
    let base ← (do
      let _ ← keyword "extends"
      list1 (do
        let e ← g.read .access
        (extend .genericType e do return [e, ← g.typeArguments]) <|> pure e)) <|> pure []
    let interfaces ← (do
      let _ ← keyword "implements"
      list1 g.type) <|> pure []
    require (!(base.isEmpty && interfaces.isEmpty))
    return base ++ interfaces
  else
    let _ ← keyword "extends"
    return [← g.read .access]

/-- The words that may stand in front of a member of a class. -/
def memberWords : List String :=
  if g.typed then
    ["public", "private", "protected", "declare", "static", "override", "readonly", "abstract",
      "accessor"]
  else ["static"]

/-- A field of a class. -/
def field : Reader source Draft := build .fieldDefinition do
  let _ ← many (memberModifier g.memberWords)
  let n ← g.memberName
  let mark ← if g.typed then maybe (marked (token "?" <|> op "!")) else pure []
  let ascription ← if g.typed then maybe (g.typeAscriptionWith true) else pure []
  let value ← maybe (do let _ ← op "="; g.expression)
  if value.isEmpty then g.memberEnd else g.endOfExpression
  return n.as .name :: mark ++ ascription.map (·.as .type) ++ value.map (·.as .value)

/-- A method of a class without a body. -/
def bodilessMethod : Reader source Draft := build .methodSignature do
  let _ ← many (memberModifier g.memberWords)
  let _ ← optional (memberModifier ["async"])
  let _ ← optional (memberModifier ["get", "set"] <|> (do let _ ← op "*"; return ()))
  let n ← g.memberName
  let mark ← maybe (marked (token "?"))
  let s ← g.signature true
  (do let _ ← op ","; return ()) <|> semicolon ⟨true, false, true⟩
  return n.as .name :: mark ++ s

/-- Members of a class that only a typed source has. -/
def typedMember : Reader source Draft := do
  require g.typed
  (do
    let i ← build .indexSignature (do
      let _ ← many (memberModifier g.memberWords)
      return [← g.indexSignature true])
    g.memberEnd
    return i) <|> g.bodilessMethod

/-- A member of a class. -/
def classMember : Reader source (List Draft) := do
  let decorators ← many g.decorator
  let member ←
    build .staticBlock (do
      let _ ← keyword "static"
      return [← g.block]) <|>
    g.methodWith g.memberWords <|> g.typedMember <|> g.field
  return decorators ++ [member]

/-- The members of a class. -/
def classBody : Reader source Draft := build .classBody do
  let _ ← op "\x7b"
  let members ← many ((do let _ ← op ";"; return []) <|> g.classMember)
  let _ ← op "\x7d"
  return members.flatten

/-- The rest of a class after its name. -/
def classRest : Reader source (List Draft) := do
  let ts ← if g.typed then maybe g.typeParameters else pure []
  let h ← maybe g.classHeritage
  return ts ++ h ++ [(← g.classBody).as .body]

/-- The name of a class. -/
def className : Reader source Draft := do
  let (w, span) ← word
  require (!(["extends", "implements"].contains w))
  return .leaf (if g.typed then .typeIdentifier else .identifier) span

/-- A class as an expression. -/
def classExpression : Reader source Draft := build .classExpression do
  let decorators ← many g.decorator
  let _ ← keyword "class"
  let n ← maybe g.className
  return decorators ++ n.map (·.as .name) ++ (← g.classRest)

end Trellis.Syntax.Grammar
