import Trellis.Syntax.Grammar.Expression

/-! # Declarations

Functions, classes and variables, and in typed sources the names of types, enumerations, namespaces
and what is defined elsewhere. -/

namespace Trellis.Syntax.Grammar

open Reader

variable {source : List Char} (g : Grammar source)

/-! ### Functions and classes -/

/-- A named function, in a typed source perhaps without a body. -/
def functionDeclaration : Reader source Draft := do
  skip
  let p ← get
  let generator ← functionStart
  let n ← name .identifier
  let kind := if generator then Kind.generatorDeclaration else .functionDeclaration
  (do
    let parts ← g.functionRest
    return .node kind .none ⟨p.place, (← get).place, p.line⟩ (n.as .name :: parts)) <|>
  (do
    require g.typed
    let parts ← g.signature true
    let q ← get
    semicolon ⟨true, false, true⟩
    return .node .functionSignature .none ⟨p.place, q.place, p.line⟩ (n.as .name :: parts))

/-- A named class. -/
def classDeclaration : Reader source Draft :=
  build .classDeclaration (do
    let decorators ← many g.decorator
    let _ ← keyword "class"
    let n ← g.className
    return decorators ++ n.as .name :: (← g.classRest)) <|>
  build .abstractClassDeclaration (do
    require g.typed
    let decorators ← many g.decorator
    let _ ← keyword "abstract"
    let _ ← keyword "class"
    let n ← g.className
    return decorators ++ n.as .name :: (← g.classRest))

/-! ### Variables -/

/-- A variable or pattern with its type and value. -/
def variableDeclarator : Reader source Draft := build .variableDeclarator do
  let n ← g.bracketPattern <|> name .identifier
  let ascription ← if g.typed then maybe (do
      let _ ← optional (op "!")
      g.typeAscriptionWith true)
    else pure []
  let value ← maybe (do let _ ← op "="; g.expression)
  return n.as .name :: ascription.map (·.as .type) ++ value.map (·.as .value)

/-- Variables with the word that declares them. -/
def declarators (kind : Kind) (words : List String) : Reader source Draft := build kind do
  let _ ← anyKeyword words
  let ds ← list1 g.variableDeclarator
  let valued := (ds.getLast?.bind (·.children.getLast?)).any (·.label = .value)
  if valued then g.endOfExpression else g.endOfStatement
  return ds

/-! ### Types -/

/-- What an interface extends. -/
def extendsTypeClause : Reader source Draft := build .extendsTypeClause do
  let _ ← keyword "extends"
  list1 g.namedType

/-- A named interface. -/
def interfaceDeclaration : Reader source Draft := build .interfaceDeclaration do
  let _ ← keyword "interface"
  let n ← typeName
  let ts ← maybe g.typeParameters
  let base ← maybe g.extendsTypeClause
  return n.as .name :: ts ++ base ++ [(← g.objectType .interfaceBody).as .body]

/-- A name for a type. -/
def typeAlias : Reader source Draft := build .typeAliasDeclaration do
  let _ ← keyword "type"
  let n ← typeName
  let ts ← maybe g.typeParameters
  let _ ← op "="
  let t ← g.read (.type true)
  g.endOfStatement
  return n.as .name :: ts ++ [t.as .value]

/-- An enumeration. -/
def enumDeclaration : Reader source Draft := build .enumDeclaration do
  let _ ← optional (keyword "const")
  let _ ← keyword "enum"
  let n ← name .identifier
  let body ← build .enumBody do
    let _ ← op "\x7b"
    let members ← list (do
      let m ← g.memberName
      (extend .enumAssignment m do
        let _ ← op "="
        return [m.as .name, (← g.expression).as .value]) <|> pure m)
    let _ ← op "\x7d"
    return members
  return [n.as .name, body.as .body]

/-! ### Namespaces and what is defined elsewhere -/

/-- A module or namespace. -/
def moduleDeclaration : Reader source Draft := build .moduleDeclaration do
  let (w, _) ← anyKeyword ["module", "namespace"]
  let n ← (do require (w = "module"); string) <|> (do
    namespaceRest .nestedIdentifier (← name .identifier) (← limit))
  let b ← maybe g.block
  if b.isEmpty then g.endOfStatement
  return n.as .name :: b.map (·.as .body)

/-- A declaration but for what is defined elsewhere. -/
def plainDeclaration : Reader source Draft := do
  if ← isAhead '@' then g.classDeclaration
  else
    match ← wordAhead with
    | some "function" | some "async" => g.functionDeclaration
    | some "class" => g.classDeclaration
    | some "var" => g.declarators .variableDeclaration ["var"]
    | some "let" => g.declarators .lexicalDeclaration ["let"]
    | some "const" =>
      (do require g.typed; g.enumDeclaration) <|> g.declarators .lexicalDeclaration ["const"]
    | some w =>
      require g.typed
      match w with
      | "interface" => g.interfaceDeclaration
      | "type" => g.typeAlias
      | "enum" => g.enumDeclaration
      | "abstract" => g.classDeclaration
      | "module" | "namespace" => g.moduleDeclaration
      | _ => failure
    | none => failure

/-- A declaration of something defined elsewhere. -/
def ambientDeclaration : Reader source Draft := build .ambientDeclaration do
  let _ ← keyword "declare"
  (do
    let _ ← keyword "global"
    return [← g.block]) <|>
  (do return [← g.plainDeclaration]) <|>
  (do
    let _ ← keyword "module"
    let _ ← op "."
    let n ← name .propertyIdentifier
    let _ ← op ":"
    let t ← g.read (.type true)
    g.endOfStatement
    return [n, t])

/-- A declaration. -/
def declaration : Reader source Draft :=
  g.plainDeclaration <|> (do require g.typed; g.ambientDeclaration)

end Trellis.Syntax.Grammar
