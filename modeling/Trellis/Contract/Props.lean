import Trellis.Contract.Declaration
import Trellis.Contract.Expansion
import Trellis.Text.Search

/-! # Props of a component

The props of a candidate, from everything its module says about them, in this order: the declared
type of its first parameter or of the variable that holds it, the names and defaults in a
destructuring or the members of the props that the body uses, and what is said for checks at run
time.

* `Mention` is one such saying; `Mention.apply` adds it to a list of props.
* `Candidate.mentions` lists all of them in order, and `Candidate.props` draws the conclusions. -/

namespace Trellis

open Syntax

/-- Something said about a prop. -/
inductive Mention where
  /-- A type of the prop. -/
  | typed (member : PropMember)
  /-- A use of the prop. -/
  | seen (name : String) (hasDefault : Bool)
  deriving DecidableEq, Repr

namespace Mention

/-- Adds what is said to a list of props. -/
def apply (ms : List PropMember) : Mention → List PropMember
  | typed m => PropMembers.merge ms m
  | seen name hasDefault => PropMembers.observe ms name hasDefault

/-! ### Destructuring -/

/-- What an entry of an object pattern says. -/
def ofEntry? (t : Tree) : Option Mention := do
  match t.kind with
  | .shorthandPattern => some (seen t.text false)
  | .objectAssignmentPattern => some (seen (← t.part? .left).text true)
  | .pairPattern =>
    let key ← t.part? .key
    some (seen (Text.stripQuotes key.text)
      ((t.part? .value).any (·.kind = .assignmentPattern)))
  | _ => none

/-- What an object pattern says. -/
def ofPattern (t : Tree) : List Mention := t.parts.filterMap ofEntry?

/-! ### Members of the props -/

/-- Whether a tree is a variable with a name. -/
def isVariable (name : String) (t : Tree) : Bool := t.kind = .identifier && t.text = name

/-- What one place of a body says about the members of a variable. -/
def ofUse (props : String) (t : Tree) : List Mention :=
  match t.kind with
  | .memberExpression =>
    match t.part? .object, t.part? .property with
    | some o, some p => if isVariable props o then [seen p.text false] else []
    | _, _ => []
  | .variableDeclarator =>
    match t.part? .value, t.part? .name with
    | some v, some n =>
      if isVariable props v && n.kind = .objectPattern then ofPattern n else []
    | _, _ => []
  | _ => []

/-- What a body says about the members of a variable. -/
def ofBody (props : String) (body : Tree) : List Mention :=
  body.descendants.flatMap (ofUse props)

/-! ### Checks at run time -/

/-- The entries of an object: names and texts of values. -/
def objectEntry? (t : Tree) : Option (String × String) := do
  match t.kind with
  | .pair =>
    let key ← t.part? .key
    let value ← t.part? .value
    some (Text.stripQuotes key.text, value.text)
  | .shorthandProperty => some (t.text, t.text)
  | _ => none

/-- Whether a text is the start of a quoted literal. -/
def isLiteralStart (s : List Char) : Bool :=
  match s with
  | c :: rest => (c = '\'' || c = '"') && !rest.isEmpty
  | [] => false

/-- The union of the literals that a check lists. -/
def unionOfCheck (check : String) : String :=
  let inner := Text.trim (Text.dropEnds (Text.dropStarts check "oneOf(") ")")
  let inner := Text.dropEnds (Text.dropStarts inner "[") "]"
  let literals := ((Text.Search.splitWhere (· = ',') inner.toList).map Text.Blank.trim).filter
    fun s => !s.isEmpty
  if !literals.isEmpty && literals.all isLiteralStart then
    String.intercalate " | " (literals.map String.ofList)
  else "any"

/-- The type for which a check stands, and whether it is a function's. -/
def typeOfCheck (check : String) : String × Bool :=
  match String.ofList (check.toList.takeWhile (· ≠ '(')) with
  | "string" => ("string", false)
  | "number" => ("number", false)
  | "bool" => ("boolean", false)
  | "func" => ("() => void", true)
  | "node" | "element" => ("React.ReactNode", false)
  | "array" | "arrayOf" => ("unknown[]", false)
  | "object" | "shape" | "objectOf" | "exact" | "instanceOf" => ("object", false)
  | "oneOf" => (unionOfCheck check, false)
  | _ => ("any", false)

/-- What a check of a prop says. -/
def ofCheck (name check : String) : Mention :=
  let check := TypeText.normalize check
  let (type, called) :=
    typeOfCheck (Text.dropStarts (Text.dropEnds check ".isRequired") "PropTypes.")
  typed ⟨name, type, !Text.endsWith check ".isRequired", false, called⟩

/-- What a statement says for checks at run time. -/
def ofStatement (component : String) (t : Tree) : List Mention :=
  let found : Option (Tree × Tree × Tree) := do
    let a ← t.content?
    let left ← a.part? .left
    let right ← a.part? .right
    if t.kind = .expressionStatement && a.kind = .assignmentExpression &&
      left.kind = .memberExpression && right.kind = .object
    then some (← left.part? .object, ← left.part? .property, right) else none
  match found with
  | some (o, p, object) =>
    let entries := object.parts.filterMap objectEntry?
    if o.text ≠ component then []
    else if p.text = "propTypes" then entries.map fun e => ofCheck e.1 e.2
    else if p.text = "defaultProps" then entries.map fun e => seen e.1 true
    else []
  | none => []

end Mention

namespace Candidate

/-- The first parameter of the function. -/
def firstParameter? (c : Candidate) : Option Tree :=
  match c.function.part? .parameter with
  | some p => some p
  | none => (c.function.part? .parameters).bind Tree.content?

/-- The pattern of a parameter. -/
def patternOf? (parameter : Tree) : Option Tree :=
  match parameter.kind with
  | .requiredParameter | .optionalParameter => parameter.part? .pattern
  | .assignmentPattern => parameter.part? .left
  | _ => some parameter

/-- The ascription of a parameter. -/
def ascriptionOf? (parameter : Tree) : Option Tree :=
  match parameter.kind with
  | .requiredParameter | .optionalParameter => parameter.part? .type
  | _ => none

/-- The names of the types of function components. -/
def componentTypes : List String :=
  ["FC", "FunctionComponent", "VFC", "VoidFunctionComponent"]

/-- The type of the props in the ascription of a variable. -/
def componentArgument? (ascription : Tree) : Option Tree := do
  let t ← ascription.content?
  let name ← t.part? .name
  if t.kind = .genericType && componentTypes.contains (Expansion.lastName name.text) then
    (← t.part? .typeArguments).content?
  else none

/-- The declared type of the props. -/
def propsType? (c : Candidate) : Option Tree :=
  (c.firstParameter?.bind ascriptionOf?) <|> (c.ascription.bind componentArgument?)

/-- The declared type of the props, written out. -/
def expansion (c : Candidate) (modules : Modules) (s : Source) : Expansion :=
  (c.propsType?.map (Expansion.ofType modules Expansion.levels [] s)).getD .nothing

/-- What the parameter and the body say about the props. -/
def uses (c : Candidate) : List Mention :=
  match c.firstParameter?.bind patternOf? with
  | some p =>
    match p.kind with
    | .objectPattern => Mention.ofPattern p
    | .identifier => (c.function.part? .body).elim [] (Mention.ofBody p.text)
    | _ => []
  | none => []

/-- Everything that is said about the props, in order. -/
def mentions (c : Candidate) (modules : Modules) (s : Source) : List Mention :=
  ((c.expansion modules s).members.map Mention.typed) ++ c.uses ++
    s.statements.flatMap (Mention.ofStatement c.name)

/-- The props of the candidate. -/
def props (c : Candidate) (modules : Modules) (s : Source) : List ComponentProp :=
  ((c.mentions modules s).foldl Mention.apply []).map PropMember.finish

end Candidate

end Trellis
