import Trellis.Syntax.Grammar.Basic

/-! # Types

Types bind from the tightest to the loosest: suffixes, `keyof`, `&`, `|`, the choice by `extends`,
and functions, whose result takes in everything that follows.

A type that is followed by a line break ends there if the next line could start a new member or
statement; inside of brackets it goes on. -/

namespace Trellis.Syntax.Grammar

open Reader

variable {source : List Char} (g : Grammar source)

/-- Whether a type goes on with what is ahead. -/
def typeGoesOn (breaks : Bool) : Reader source Unit := do
  if breaks then
    let s ← rest
    require (!(EndRule.mk true false false).endsAt (s.length + 1) s)

/-! ### Arguments and parameters of types -/

/-- Type arguments. -/
def typeArguments : Reader source Draft := build .typeArguments do
  let _ ← token "<"
  let ts ← list1 g.type
  let _ ← optional (op ",")
  let _ ← token ">"
  return ts

/-- A name of a type. -/
def typeName : Reader source Draft := name .typeIdentifier

/-- One type parameter. -/
def typeParameter : Reader source Draft := build .typeParameter do
  let plain : Reader source (List Draft) := do
    let n ← typeName
    let bound ← maybe (do
      let _ ← (do let _ ← keyword "extends"; return ()) <|> (do let _ ← op ":"; return ())
      g.type)
    let value ← maybe (do let _ ← op "="; g.type)
    return n.as .name :: bound ++ value.map (·.as .value)
  (do let _ ← keyword "const"; plain) <|> plain

/-- Type parameters. -/
def typeParameters : Reader source Draft := build .typeParameters do
  let _ ← token "<"
  let ts ← list1 g.typeParameter
  let _ ← optional (op ",")
  let _ ← token ">"
  return ts

/-! ### Ascriptions -/

/-- The type after a colon. -/
def typeAscriptionWith (breaks : Bool) : Reader source Draft := build .typeAscription do
  let _ ← token ":"
  return [← g.read (.type breaks)]

/-- The type after a colon, inside of brackets. -/
def typeAscription : Reader source Draft := g.typeAscriptionWith false

/-- The object itself as a node. -/
def thisWord : Reader source Draft := do return .leaf .this (← keyword "this")

/-- A statement about the type of an argument. -/
def typePredicate (breaks : Bool) : Reader source Draft := build .typePredicate do
  let n ← thisWord <|> name .identifier
  let _ ← keyword "is"
  return [n.as .name, (← g.read (.type breaks)).as .type]

/-- What a function checks before it returns. -/
def assertion (breaks : Bool) : Reader source Draft := build .typePredicate do
  let _ ← keyword "asserts"
  return [← g.typePredicate breaks <|> thisWord <|> name .identifier]

/-- The ascription of a result. -/
def resultAscription (breaks : Bool) : Reader source Draft :=
  build .predicateAscription (do
    let _ ← token ":"
    return [← g.assertion breaks <|> g.typePredicate breaks]) <|>
  g.typeAscriptionWith breaks

/-! ### Parameters of functions -/

/-- A decorator. -/
def decorator : Reader source Draft := build .decorator do
  let _ ← op "@"
  (do
    let _ ← op "("
    let e ← g.expressions
    let _ ← op ")"
    return [e]) <|>
  (do return [← g.read .access])

/-- A modifier of a parameter, if a parameter follows it. -/
def parameterModifier (words : List String) : Reader source Unit := do
  let _ ← anyKeyword words
  let s ← ahead
  match s with
  | c :: _ => require (c = '\x7b' || c = '[' || (Lexeme.word? s).isSome || "...".toList.isPrefixOf s)
  | [] => failure

/-- A parameter where types may be written. -/
def typedParameter : Reader source Draft := do
  skip
  let p ← get
  let decorators ← many g.decorator
  let _ ← optional (parameterModifier ["public", "private", "protected"])
  let _ ← optional (parameterModifier ["override"])
  let _ ← optional (parameterModifier ["readonly"])
  let pattern ← thisWord <|> g.read .pattern
  let mark ← maybe (marked (token "?"))
  let ascription ← maybe g.typeAscription
  let value ← maybe (do let _ ← op "="; g.expression)
  let q ← get
  let kind := if mark.isEmpty then Kind.requiredParameter else .optionalParameter
  return .node kind .none ⟨p.place, q.place, p.line⟩
    (decorators ++ [pattern.as .pattern] ++ mark ++ ascription.map (·.as .type) ++
      value.map (·.as .value))

/-- A pattern with a default value, or a pattern. -/
def patternWithDefault : Reader source Draft := do
  let p ← g.read .pattern
  (extend .assignmentPattern (p.as .left) do
    let _ ← op "="
    return [p.as .left, (← g.expression).as .right]) <|> pure p

/-- A parameter. -/
def parameter : Reader source Draft :=
  if g.typed then g.typedParameter else g.patternWithDefault

/-- The parameters of a function. -/
def parameters : Reader source Draft := build .formalParameters do
  let _ ← op "("
  let ps ← list g.parameter
  let _ ← op ")"
  return ps

/-- The parameters of a function with its type parameters and the ascription of its result. -/
def signature (breaks : Bool) : Reader source (List Draft) := do
  if g.typed then
    let ts ← maybe g.typeParameters
    let ps ← g.parameters
    let r ← maybe (g.resultAscription breaks)
    return ts ++ [ps.as .parameters] ++ r.map (·.as .returnType)
  else
    return [(← g.parameters).as .parameters]

/-! ### Members of object types -/

/-- A modifier of a member, if a member's name follows it. -/
def memberModifier (words : List String) : Reader source Unit := do
  let _ ← anyKeyword words
  let s ← ahead
  match s with
  | c :: _ =>
    require (c = '[' || c = '"' || c = '\'' || c = '#' || c = '*' || c.isDigit ||
      (Lexeme.word? s).isSome)
  | [] => failure

/-- The clause that names the members of a mapped type. -/
def mappedClause : Reader source Draft := build .mappedTypeClause do
  let n ← typeName
  let _ ← keyword "in"
  let t ← g.type
  let renamed ← maybe (do let _ ← keyword "as"; g.type)
  return [n.as .name, t.as .type] ++ renamed.map (·.as .alias)

/-- The ascription of a mapped type's members. -/
def mappedAscription (breaks : Bool) : Reader source Draft := build .typeAscription do
  let _ ← token "-" <|> token "+"
  let _ ← token "?"
  let _ ← token ":"
  return [← g.read (.type breaks)]

/-- The ascription of a mapped type's members that may be left out. -/
def optionalAscription (breaks : Bool) : Reader source Draft := build .typeAscription do
  let _ ← token "?"
  let _ ← token ":"
  return [← g.read (.type breaks)]

/-- Members whose names are not listed. -/
def indexSignature (breaks : Bool) : Reader source Draft := build .indexSignature do
  let _ ← optional (do
    let _ ← optional (token "-" <|> token "+")
    keyword "readonly")
  let _ ← op "["
  let inner ← (do
    let n ← name .identifier
    let _ ← op ":"
    return [n.as .name, ← g.type]) <|> (do return [← g.mappedClause])
  let _ ← op "]"
  let ascription ←
    g.typeAscriptionWith breaks <|> g.mappedAscription breaks <|> g.optionalAscription breaks
  return inner ++ [ascription.as .type]

/-- The type of a construction. -/
def constructSignature : Reader source Draft := build .constructSignature do
  let _ ← optional (keyword "abstract")
  let _ ← keyword "new"
  let ts ← maybe g.typeParameters
  let ps ← g.parameters
  let r ← maybe (g.typeAscriptionWith true)
  return ts ++ [ps.as .parameters] ++ r.map (·.as .type)

/-- The type of a call. -/
def callSignature : Reader source Draft := build .callSignature (g.signature true)

/-- A method of an object type. -/
def methodSignature : Reader source Draft := build .methodSignature do
  let _ ← optional (memberModifier ["public", "private", "protected"])
  let _ ← optional (memberModifier ["static"])
  let _ ← optional (memberModifier ["override"])
  let _ ← optional (memberModifier ["readonly"])
  let _ ← optional (memberModifier ["async"])
  let _ ← optional (memberModifier ["get", "set"] <|> (do let _ ← op "*"; return ()))
  let n ← g.memberName
  let mark ← maybe (marked (token "?"))
  let s ← g.signature true
  return [n.as .name] ++ mark ++ s

/-- A member of an object type with its type. -/
def propertySignature : Reader source Draft := build .propertySignature do
  let _ ← optional (memberModifier ["public", "private", "protected"])
  let _ ← optional (memberModifier ["static"])
  let _ ← optional (memberModifier ["override"])
  let _ ← optional (memberModifier ["readonly"])
  let n ← g.memberName
  let mark ← maybe (marked (token "?"))
  let ascription ← maybe (g.typeAscriptionWith true)
  return [n.as .name] ++ mark ++ ascription.map (·.as .type)

/-- A member of an object type. -/
def typeMember : Reader source Draft :=
  g.indexSignature true <|> g.callSignature <|> g.constructSignature <|> g.methodSignature <|>
  g.propertySignature

/-- What separates the members of an object type. -/
def memberEnd : Reader source Unit :=
  (do let _ ← op ","; return ()) <|> g.endOfStatement

/-- The members of an object type, with exactly one separator between two. -/
def objectType (kind : Kind) : Reader source Draft := build kind do
  let _ ← op "\x7b"
  let bar ← accept (token "|")
  let members ← (do
    let _ ← optional (op "," <|> op ";")
    let first ← g.typeMember
    let more ← many (do g.memberEnd; g.typeMember)
    let _ ← optional g.memberEnd
    return first :: more) <|> pure []
  if bar then
    let _ ← token "|"
  let _ ← op "\x7d"
  return members

/-! ### Tuples -/

/-- A member of a tuple. -/
def tupleMember : Reader source Draft :=
  build .requiredParameter (do
    let n ← build .restPattern (do let _ ← op "..."; return [← name .identifier]) <|>
      name .identifier
    let t ← g.typeAscription
    return [n.as .name, t.as .type]) <|>
  build .optionalParameter (do
    let n ← name .identifier
    let mark ← marked (token "?")
    let t ← g.typeAscription
    return [n.as .name, mark, t.as .type]) <|>
  build .restType (do let _ ← op "..."; return [← g.type]) <|>
  (do
    let t ← g.type
    (extend .optionalType t do
      let _ ← token "?"
      return [t]) <|> pure t)

/-- A type of arrays of fixed length. -/
def tupleType : Reader source Draft := build .tupleType do
  let _ ← op "["
  let ts ← list g.tupleMember
  let _ ← op "]"
  return ts

/-! ### The types of values -/

/-- The members and calls that follow a value in the query of its type; `n` bounds them. -/
def queryRest (first : Draft) : Nat → Reader source Draft
  | 0 => pure first
  | n + 1 => do
    let next ← optional (
      (extend .memberExpression first do
        let _ ← op "." <|> op "?."
        return [first.as .object, (← name .propertyIdentifier <|> privateName).as .property]) <|>
      (extend .subscriptExpression first do
        let _ ← op "["
        let i ← string <|> number
        let _ ← op "]"
        return [first.as .object, i]))
    match next with
    | some d => queryRest d n
    | none => return first

/-- The arguments of a call. -/
def arguments : Reader source Draft := build .arguments do
  let _ ← op "("
  let items ← looseList (
    build .spreadElement (do let _ ← op "..."; return [← g.expression]) <|> g.expression)
  let _ ← op ")"
  return items

/-- A module loaded in a type. -/
def importCall : Reader source Draft := do
  let i := Draft.leaf .importWord (← keyword "import")
  extend .callExpression i do return [i, ← g.arguments]

/-- The type of a value. -/
def typeQuery : Reader source Draft := build .typeQuery do
  let _ ← keyword "typeof"
  let first ← g.importCall <|> thisWord <|> name .identifier
  let value ← queryRest first (← limit)
  let ts ← maybe g.typeArguments
  return value :: ts

/-- A type from a module that is loaded in place. -/
def importType : Reader source Draft := do
  let c ← g.importCall
  queryRest c (← limit)

/-! ### Primary types -/

/-- The names of built-in types. -/
def predefinedTypes : List String :=
  ["any", "number", "boolean", "string", "symbol", "void", "unknown", "never", "object"]

/-- The parts of a name in a namespace, after the first; `n` bounds them. -/
def namespaceRest (last : Kind) (first : Draft) : Nat → Reader source Draft
  | 0 => pure first
  | n + 1 => do
    let next ← optional (extend last first do
      let _ ← op "."
      return [first, (← name .typeIdentifier).as .name])
    match next with
    | some d => namespaceRest last d n
    | none => return first

/-- A named type with its arguments. -/
def namedType : Reader source Draft := do
  let (w, span) ← word
  let s ← rest
  let dotted := s.head? = some '.' && !"...".toList.isPrefixOf s
  let isName := !predefinedTypes.contains w || dotted
  if !isName then
    return .leaf .predefinedType span
  let first ← namespaceRest .nestedTypeIdentifier (.leaf .typeIdentifier span)
    (← limit)
  (extend .genericType first do
    return [first.as .name, (← g.typeArguments).as .typeArguments]) <|> pure first

/-- A type with one value. -/
def literalType : Reader source Draft := build .literalType do
  (do return [← string]) <|>
  (do return [← number]) <|>
  (do
    let _ ← op "-" <|> op "+"
    return [← number]) <|>
  (do
    let _ ← anyKeyword ["true", "false", "null", "undefined"]
    return [])

/-- A primary type without suffixes. -/
def simpleType (breaks : Bool) : Reader source Draft :=
  build .parenthesizedType (do
    let _ ← op "("
    let t ← g.type
    let _ ← op ")"
    return [t]) <|>
  g.objectType .objectType <|>
  g.tupleType <|>
  literalType <|>
  template .templateLiteralType g.type <|>
  g.typeQuery <|>
  build .keyofType (do
    let _ ← keyword "keyof"
    return [← g.read (.primaryType breaks)]) <|>
  build .predefinedType (do
    let _ ← keyword "unique"
    let _ ← keyword "symbol"
    return []) <|>
  (do return Draft.leaf .thisType (← keyword "this")) <|>
  build .existentialType (do let _ ← op "*"; return []) <|>
  build .maybeType (do
    let _ ← token "?"
    return [← g.read (.primaryType breaks)]) <|>
  g.importType <|>
  g.namedType

/-- The suffixes of a type; `n` bounds them. -/
def typeSuffixes (breaks : Bool) (first : Draft) : Nat → Reader source Draft
  | 0 => pure first
  | n + 1 => do
    let next ← optional (do
      typeGoesOn breaks
      (extend .arrayType first do
        let _ ← op "["
        let _ ← op "]"
        return [first]) <|>
      (extend .lookupType first do
        let _ ← op "["
        let t ← g.type
        let _ ← op "]"
        return [first, t]))
    match next with
    | some d => typeSuffixes breaks d n
    | none => return first

/-- A primary type with its suffixes. -/
def primaryType (breaks : Bool) : Reader source Draft := do
  let t ← g.simpleType breaks
  g.typeSuffixes breaks t (← limit)

/-! ### Composite types -/

/-- A type of functions or constructors, or one whose operator takes in all that follows. -/
def greedyType (breaks : Bool) : Reader source Draft :=
  build .functionType (do
    let ts ← maybe g.typeParameters
    let ps ← g.parameters
    let _ ← op "=>"
    let r ← g.assertion breaks <|> g.typePredicate breaks <|> g.read (.type breaks)
    return ts ++ [ps.as .parameters, r.as .returnType]) <|>
  build .constructorType (do
    let _ ← optional (keyword "abstract")
    let _ ← keyword "new"
    let ts ← maybe g.typeParameters
    let ps ← g.parameters
    let _ ← op "=>"
    return ts ++ [ps.as .parameters, (← g.read (.type breaks)).as .type]) <|>
  build .readonlyType (do
    let _ ← keyword "readonly"
    return [← g.read (.type breaks)]) <|>
  build .inferType (do
    let _ ← keyword "infer"
    let n ← typeName
    let bound ← maybe (do
      let _ ← keyword "extends"
      g.read (.primaryType breaks))
    return n :: bound)

/-- Whether a word that starts a type can only start a greedy one, or a bracket does. -/
def typeOperand (breaks : Bool) : Reader source Draft :=
  g.greedyType breaks <|> g.primaryType breaks

/-- Types joined by an operator, to the left; `n` bounds them. -/
def joinTypes (breaks : Bool) (kind : Kind) (mark : String) (operand : Reader source Draft)
    (first : Draft) : Nat → Reader source Draft
  | 0 => pure first
  | n + 1 => do
    let next ← optional (do
      typeGoesOn breaks
      extend kind first do
        let _ ← op mark
        return [first, ← operand])
    match next with
    | some d => joinTypes breaks kind mark operand d n
    | none => return first

/-- Types joined by an operator, which may also stand before the first. -/
def joinedTypes (breaks : Bool) (kind : Kind) (mark : String) (operand : Reader source Draft) :
    Reader source Draft := do
  let first ← build kind (do
    let _ ← op mark
    return [← operand]) <|> operand
  joinTypes breaks kind mark operand first (← limit)

/-- Alternatives of types that hold at once. -/
def unionType (breaks : Bool) : Reader source Draft :=
  joinedTypes breaks .unionType "|"
    (joinedTypes breaks .intersectionType "&" (g.typeOperand breaks))

/-- A type. -/
def fullType (breaks : Bool) : Reader source Draft := do
  let t ← g.unionType breaks
  (do
    typeGoesOn breaks
    extend .conditionalType t do
      let _ ← keyword "extends"
      let r ← g.unionType breaks
      let _ ← token "?"
      let yes ← g.read (.type breaks)
      let _ ← op ":"
      let no ← g.read (.type breaks)
      return [t.as .left, r.as .right, yes.as .consequence, no.as .alternative]) <|> pure t

end Trellis.Syntax.Grammar
