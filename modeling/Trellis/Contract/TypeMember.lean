import Trellis.Contract.Member
import Trellis.Source.File
import Trellis.Text.Quoted

/-! # Members of declared types

What a module says about types at its top level.

* `TypeMember.ofBody` lists the members that stand in the braces of an object type or interface.
* `TypeMember.declaration?` finds the interface or alias of a name.
* `TypeMember.import?` finds the specifier behind a name that is imported. -/

namespace Trellis.TypeMember

open Syntax

/-- Whether a type is a function's. -/
def isCallKind (t : Tree) : Bool := t.kind = .functionType || t.kind = .constructorType

/-- Whether a tree declares a type under a name. -/
def declares (name : String) (t : Tree) : Bool :=
  (t.kind = .interfaceDeclaration || t.kind = .typeAliasDeclaration) &&
  (t.part? .name).any (·.text = name)

/-- The declaration in a statement, exported or not. -/
def exported? (t : Tree) : Option Tree :=
  if t.kind = .exportStatement then t.part? .declaration else some t

/-- The interface or alias of a name. -/
def declaration? (s : Source) (name : String) : Option Tree :=
  s.statements.findSome? fun t => (exported? t).filter (declares name)

/-- Whether a type is a function's, perhaps by an alias in the same module. -/
def isCalled (s : Source) (t : Tree) : Bool :=
  isCallKind t ||
  (t.kind = .typeIdentifier &&
    (((declaration? s t.text).filter (·.kind = .typeAliasDeclaration)).bind
      (·.part? .value)).any isCallKind)

/-- A member with its type. -/
def ofProperty (s : Source) (name : String) (t : Tree) : PropMember :=
  let type := (t.part? .type).bind Tree.content?
  { name := name
    type := (type.map fun a => TypeText.normalize a.text).getD "any"
    optional := t.hasMark "?"
    hasDefault := false
    called := type.any (isCalled s) }

/-- A member written as a method. -/
def ofMethod (name : String) (t : Tree) : PropMember :=
  let parameters := ((t.part? .parameters).map Tree.text).getD "()"
  let result := (((t.part? .returnType).bind Tree.content?).map Tree.text).getD "void"
  { name := name
    type := TypeText.normalize (parameters ++ " => " ++ result)
    optional := t.hasMark "?"
    hasDefault := false
    called := true }

/-- A member of an object type, if it is a prop. -/
def ofTree? (s : Source) (t : Tree) : Option PropMember := do
  let name := Text.stripQuotes (← t.part? .name).text
  match t.kind with
  | .propertySignature => some (ofProperty s name t)
  | .methodSignature => some (ofMethod name t)
  | _ => none

/-- The members in the braces of an object type or interface. -/
def ofBody (s : Source) (body : Tree) : List PropMember := body.parts.filterMap (ofTree? s)

/-! ### Imports -/

/-- The name that an import specifier binds in the module. -/
def boundName? (t : Tree) : Option String :=
  match t.part? .alias with
  | some a => some a.text
  | none => (t.part? .name).map Tree.text

/-- The children of a tree that are of a kind. -/
def partsOf (k : Kind) (t : Tree) : List Tree := t.parts.filter (·.kind = k)

/-- The import specifiers of a statement. -/
def importSpecifiers (t : Tree) : List Tree :=
  (partsOf .importClause t).flatMap fun c =>
    (partsOf .namedImports c).flatMap (partsOf .importSpecifier)

/-- The module and the name in it that a statement binds to a name. -/
def importedBy? (name : String) (t : Tree) : Option (String × String) := do
  if t.kind = .importStatement then
    let source ← t.part? .source
    let spec ← (importSpecifiers t).find? (boundName? · = some name)
    return (Text.stripQuotes source.text, (← spec.part? .name).text)
  else none

/-- The module and the name in it that are behind a name. -/
def import? (s : Source) (name : String) : Option (String × String) :=
  s.statements.findSome? (importedBy? name)

end Trellis.TypeMember
