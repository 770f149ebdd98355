import Trellis.Contract.Basic
import Trellis.Source.File

/-! # Declarations and exports of a module

* `Candidate.ofSource` lists the functions at the top level whose names start with a capital letter;
  each of them may be a component.
* `Export.ofSource` lists what the module exports of its own; `Export.lookup` tells how a name leaves
  the module: as the default export if it is one, else under the first name it is exported under. -/

namespace Trellis

open Syntax

/-- A function that may be a component. -/
structure Candidate where
  /-- The name it is declared under. -/
  name : String
  /-- The function. -/
  function : Tree
  /-- The ascription of the variable that holds it. -/
  ascription : Option Tree
  /-- The line of its declaration. -/
  line : Nat
  deriving Repr

namespace Candidate

/-- Whether a component may have this name. -/
def isComponentName (name : String) : Bool := (name.toList.head?.map Char.isUpper).getD false

/-- Whether a value is a function. -/
def isFunction (t : Tree) : Bool := t.kind = .arrowFunction || t.kind = .functionExpression

/-- The candidate that a named function is. -/
def ofFunction? (t : Tree) : Option Candidate := do
  let name := (← t.part? .name).text
  if isComponentName name then some ⟨name, t, none, t.line + 1⟩ else none

/-- The name that a declarator declares, unless it takes a value apart. -/
def declaredName? (t : Tree) : Option String := do
  if t.kind = .variableDeclarator then
    let n ← t.part? .name
    if n.kind = .identifier then some n.text else none
  else none

/-- The candidate that a variable with a function is. -/
def ofDeclarator? (t : Tree) : Option Candidate := do
  let name ← declaredName? t
  let value ← t.part? .value
  if isFunction value && isComponentName name then
    some ⟨name, value, t.part? .type, t.line + 1⟩
  else none

/-- Whether a statement declares variables. -/
def isVariables (t : Tree) : Bool := t.kind = .lexicalDeclaration || t.kind = .variableDeclaration

/-- The candidates of a declaration. -/
def ofDeclaration (t : Tree) : List Candidate :=
  if t.kind = .functionDeclaration then (ofFunction? t).toList
  else if isVariables t then t.parts.filterMap ofDeclarator?
  else []

/-- The declaration in a statement: of an export of the module's own, what it exports. -/
def declarationOf? (t : Tree) : Option Tree :=
  if t.kind = .exportStatement then
    if (t.part? .source).isSome then none else t.part? .declaration
  else some t

/-- The candidates of a module, in the order of their declarations. -/
def ofSource (s : Source) : List Candidate :=
  s.statements.flatMap fun t => ((declarationOf? t).map ofDeclaration).getD []

end Candidate

/-! ### Exports -/

/-- An export of a name of the module. -/
inductive Export where
  /-- The module stands for this name. -/
  | default (name : String)
  /-- The name is exported under another, or its own, name. -/
  | named (name exported : String)
  deriving DecidableEq, Repr

namespace Export

/-- The exports of an exported declaration. -/
def ofDeclaration (isDefault : Bool) (t : Tree) : List Export :=
  if t.kind = .functionDeclaration then
    match t.part? .name with
    | some n => [if isDefault then default n.text else named n.text n.text]
    | none => []
  else if Candidate.isVariables t then
    (t.parts.filterMap Candidate.declaredName?).map fun n => named n n
  else []

/-- The export that a name in braces is. -/
def ofSpecifier? (t : Tree) : Option Export := do
  if t.kind = .exportSpecifier then
    let name := (← t.part? .name).text
    let exported := ((t.part? .alias).map Tree.text).getD name
    return if exported = "default" then default name else named name exported
  else none

/-- The exports of a statement. -/
def ofStatement (t : Tree) : List Export :=
  if t.kind ≠ .exportStatement || (t.part? .source).isSome then []
  else
    match t.part? .declaration, t.part? .value with
    | some d, _ => ofDeclaration (t.hasMark "default") d
    | none, some v => if t.hasMark "default" && v.kind = .identifier then [default v.text] else []
    | none, none =>
      (t.parts.filter (·.kind = .exportClause)).flatMap fun c => c.parts.filterMap ofSpecifier?

/-- The exports of a module. -/
def ofSource (s : Source) : List Export := s.statements.flatMap ofStatement

/-- The name that a module stands for: the last one that is said to be it. -/
def default? (es : List Export) : Option String :=
  es.reverse.findSome? fun e =>
    match e with
    | default n => some n
    | named _ _ => none

/-- How a name leaves the module. -/
def lookup (es : List Export) (name : String) : Option (ExportKind × String) :=
  if default? es = some name then some (.default, "default")
  else
    es.findSome? fun e =>
      match e with
      | named n exported => if n = name then some (.named, exported) else none
      | default _ => none

end Export

end Trellis
