/-! # Kinds of nodes

What a node of a source's tree is, and which part of its parent it is.

* `Kind` lists the kinds. Punctuation is not kept, but for marks that carry meaning: operators, the
  mark of an optional member, and the word `default` of an export. Those are nodes of kind `mark`.
* `Label` names the parts of a node that are looked up by name. A part without a label is reached by
  its place. -/

namespace Trellis.Syntax

/-- What a node is. -/
inductive Kind where
  -- Modules
  /-- A whole source. -/
  | program
  /-- A first line for the operating system. -/
  | hashBang
  /-- A comment. -/
  | comment
  /-- An import. -/
  | importStatement
  /-- What an import binds. -/
  | importClause
  /-- Imported names in braces. -/
  | namedImports
  /-- One imported name. -/
  | importSpecifier
  /-- All exports of a module under one name. -/
  | namespaceImport
  /-- Attributes of an import. -/
  | importAttribute
  /-- An import of a whole module by a call. -/
  | importRequire
  /-- A name for a part of a namespace. -/
  | importAlias
  /-- An export. -/
  | exportStatement
  /-- Exported names in braces. -/
  | exportClause
  /-- One exported name. -/
  | exportSpecifier
  /-- All exports of another module under one name. -/
  | namespaceExport
  -- Declarations
  /-- A named function. -/
  | functionDeclaration
  /-- A named generator. -/
  | generatorDeclaration
  /-- A named function without a body. -/
  | functionSignature
  /-- A named class. -/
  | classDeclaration
  /-- A named abstract class. -/
  | abstractClassDeclaration
  /-- Block-scoped variables. -/
  | lexicalDeclaration
  /-- Function-scoped variables. -/
  | variableDeclaration
  /-- One variable or pattern with its value. -/
  | variableDeclarator
  /-- A named interface. -/
  | interfaceDeclaration
  /-- A name for a type. -/
  | typeAliasDeclaration
  /-- An enumeration. -/
  | enumDeclaration
  /-- The members of an enumeration. -/
  | enumBody
  /-- A member of an enumeration with its value. -/
  | enumAssignment
  /-- A module or namespace. -/
  | moduleDeclaration
  /-- A declaration of something defined elsewhere. -/
  | ambientDeclaration
  -- Statements
  /-- Statements in braces. -/
  | statementBlock
  /-- An expression as a statement. -/
  | expressionStatement
  /-- A choice between statements. -/
  | ifStatement
  /-- The other side of a choice between statements. -/
  | elseClause
  /-- A choice by value. -/
  | switchStatement
  /-- The cases of a choice by value. -/
  | switchBody
  /-- One case. -/
  | switchCase
  /-- The case for all other values. -/
  | switchDefault
  /-- A loop with a counter. -/
  | forStatement
  /-- A loop over keys or elements. -/
  | forInStatement
  /-- A loop that tests first. -/
  | whileStatement
  /-- A loop that tests last. -/
  | doStatement
  /-- A block whose failures are handled. -/
  | tryStatement
  /-- The handler of a failure. -/
  | catchClause
  /-- What is done in any case. -/
  | finallyClause
  /-- A statement with an object's members in scope. -/
  | withStatement
  /-- The end of a loop. -/
  | breakStatement
  /-- The next round of a loop. -/
  | continueStatement
  /-- A stop for the debugger. -/
  | debuggerStatement
  /-- The end of a function. -/
  | returnStatement
  /-- A failure. -/
  | throwStatement
  /-- Nothing. -/
  | emptyStatement
  /-- A statement with a name. -/
  | labeledStatement
  -- Expressions
  /-- An expression in parentheses. -/
  | parenthesizedExpression
  /-- Expressions one after another. -/
  | sequenceExpression
  /-- An assignment. -/
  | assignmentExpression
  /-- An assignment that computes with the old value. -/
  | augmentedAssignment
  /-- The result of a promise. -/
  | awaitExpression
  /-- An operator before an expression. -/
  | unaryExpression
  /-- An operator between expressions. -/
  | binaryExpression
  /-- A choice between expressions. -/
  | ternaryExpression
  /-- An increment or decrement. -/
  | updateExpression
  /-- A construction. -/
  | newExpression
  /-- A value handed out by a generator. -/
  | yieldExpression
  /-- An expression seen as of another type. -/
  | asExpression
  /-- An expression checked against a type. -/
  | satisfiesExpression
  /-- An expression said to be present. -/
  | nonNullExpression
  /-- A type before an expression. -/
  | typeAssertion
  /-- A function with its type arguments. -/
  | instantiationExpression
  /-- An element of an object by a computed name. -/
  | subscriptExpression
  /-- A member of an object by name. -/
  | memberExpression
  /-- A call. -/
  | callExpression
  /-- A function written with an arrow. -/
  | arrowFunction
  /-- A function as an expression. -/
  | functionExpression
  /-- A generator as an expression. -/
  | generatorFunction
  /-- A class as an expression. -/
  | classExpression
  /-- A property of the running code. -/
  | metaProperty
  /-- An object. -/
  | object
  /-- A member of an object with its value. -/
  | pair
  /-- All members or elements of a value. -/
  | spreadElement
  /-- A method with its body. -/
  | methodDefinition
  /-- A member of an object named like the variable that is its value. -/
  | shorthandProperty
  /-- An array. -/
  | array
  /-- The arguments of a call. -/
  | arguments
  /-- A text with expressions in it. -/
  | templateString
  /-- An expression in a text. -/
  | templateSubstitution
  /-- A quoted text. -/
  | string
  /-- A number. -/
  | number
  /-- A regular expression. -/
  | regex
  /-- A name of a variable. -/
  | identifier
  /-- A name of a member. -/
  | propertyIdentifier
  /-- A name of a private member. -/
  | privateIdentifier
  /-- A name of a statement. -/
  | statementIdentifier
  /-- The object a function belongs to. -/
  | this
  /-- The class a class extends. -/
  | super
  /-- The truth value of what holds. -/
  | true
  /-- The truth value of what does not hold. -/
  | false
  /-- No object. -/
  | null
  /-- No value. -/
  | undefined
  /-- The word for modules loaded at run time. -/
  | importWord
  /-- A computed name of a member. -/
  | computedName
  /-- A decorator. -/
  | decorator
  -- Patterns
  /-- A pattern for an object. -/
  | objectPattern
  /-- A pattern for an array. -/
  | arrayPattern
  /-- A member of an object pattern with its own pattern. -/
  | pairPattern
  /-- A pattern for what is left. -/
  | restPattern
  /-- A pattern with a default value. -/
  | assignmentPattern
  /-- A variable of an object pattern with a default value. -/
  | objectAssignmentPattern
  /-- A variable of an object pattern. -/
  | shorthandPattern
  /-- The parameters of a function. -/
  | formalParameters
  /-- A parameter with what is declared of it. -/
  | requiredParameter
  /-- A parameter that may be left out. -/
  | optionalParameter
  -- Classes
  /-- What a class extends and implements. -/
  | classHeritage
  /-- The members of a class. -/
  | classBody
  /-- A field of a class. -/
  | fieldDefinition
  /-- Statements run once for a class. -/
  | staticBlock
  /-- A method without a body. -/
  | methodSignature
  /-- An abstract method. -/
  | abstractMethodSignature
  -- Types
  /-- The type of a name. -/
  | typeAscription
  /-- What a function tells about an argument. -/
  | predicateAscription
  /-- Type parameters. -/
  | typeParameters
  /-- One type parameter. -/
  | typeParameter
  /-- Type arguments. -/
  | typeArguments
  /-- A type of objects. -/
  | objectType
  /-- The members of an interface. -/
  | interfaceBody
  /-- A member of an object type. -/
  | propertySignature
  /-- The members of an object type whose names are not listed. -/
  | indexSignature
  /-- The type of a call of an object. -/
  | callSignature
  /-- The type of a construction with an object. -/
  | constructSignature
  /-- What an interface extends. -/
  | extendsTypeClause
  /-- One type or another. -/
  | unionType
  /-- One type and another. -/
  | intersectionType
  /-- A choice between types. -/
  | conditionalType
  /-- A type of functions. -/
  | functionType
  /-- A type of constructors. -/
  | constructorType
  /-- A type that may not be written to. -/
  | readonlyType
  /-- The names of the members of a type. -/
  | keyofType
  /-- The type of a member of a type. -/
  | lookupType
  /-- A type of arrays. -/
  | arrayType
  /-- A type of arrays of fixed length. -/
  | tupleType
  /-- A type in parentheses. -/
  | parenthesizedType
  /-- A type with its arguments. -/
  | genericType
  /-- A name of a type. -/
  | typeIdentifier
  /-- A name of a type in a namespace. -/
  | nestedTypeIdentifier
  /-- A name in a namespace. -/
  | nestedIdentifier
  /-- A built-in type. -/
  | predefinedType
  /-- A type with one value. -/
  | literalType
  /-- A type of texts of some form. -/
  | templateLiteralType
  /-- The type of a value. -/
  | typeQuery
  /-- The type of the object itself. -/
  | thisType
  /-- A type that is found by matching. -/
  | inferType
  /-- A statement about the type of an argument. -/
  | typePredicate
  /-- A type that may be left out. -/
  | optionalType
  /-- The types of all other elements. -/
  | restType
  /-- Any type. -/
  | existentialType
  /-- A type or nothing. -/
  | maybeType
  /-- The names of a mapped type. -/
  | mappedTypeClause
  -- Markup
  /-- An element with its children. -/
  | element
  /-- An element without children. -/
  | selfClosingElement
  /-- The tag that opens an element. -/
  | openingElement
  /-- The tag that closes an element. -/
  | closingElement
  /-- An attribute. -/
  | attribute
  /-- A name with a namespace. -/
  | namespaceName
  /-- An expression among markup. -/
  | markupExpression
  /-- Text among markup. -/
  | markupText
  /-- A character written by name or number. -/
  | characterReference
  -- Marks
  /-- A mark that carries meaning. -/
  | mark
  deriving DecidableEq, Repr, Inhabited

/-- Which part of its parent a node is. -/
inductive Label where
  /-- A part reached by its place only. -/
  | none
  /-- The name that is declared or given. -/
  | name
  /-- The type or type ascription. -/
  | type
  /-- The value. -/
  | value
  /-- The body. -/
  | body
  /-- The list of parameters. -/
  | parameters
  /-- The only parameter. -/
  | parameter
  /-- The ascription of the result. -/
  | returnType
  /-- The type arguments. -/
  | typeArguments
  /-- The pattern of a parameter. -/
  | pattern
  /-- The left side. -/
  | left
  /-- The right side. -/
  | right
  /-- The operator. -/
  | operator
  /-- The condition. -/
  | condition
  /-- The side for a condition that holds. -/
  | consequence
  /-- The side for a condition that does not hold. -/
  | alternative
  /-- The object of a member. -/
  | object
  /-- The name of a member. -/
  | property
  /-- The name of a pair. -/
  | key
  /-- The module an import or export refers to. -/
  | source
  /-- The exported declaration. -/
  | declaration
  /-- The other name. -/
  | alias
  /-- The opening tag. -/
  | openTag
  deriving DecidableEq, Repr, Inhabited

end Trellis.Syntax
