import Trellis.Decimal.Digits
import Trellis.Text.Blank
import Trellis.Text.Quoted

/-! # Shapes of declared types

A mock value depends only on the coarse shape of a prop's declared type, which is read off the
type's text.

* `Scan` walks through a text and knows, before each character, how deep it is in brackets and
  whether it is in a quoted literal. An arrow's `>` closes nothing.
* `unionMembers` cuts a type at its top-level bars; enclosing parentheses and blank members fall
  away.
* `TypeShape.classify` leaves `undefined` and `null` out and gives the shape on which the other
  members agree. -/

namespace Trellis

/-- The coarse shape of a type. -/
inductive TypeShape where
  /-- Renderable markup. -/
  | node
  /-- A text, with the literal when the type is one. -/
  | string (literal : Option String)
  /-- A number, with the literal when the type is one. -/
  | number (literal : Option String)
  /-- A truth value. -/
  | boolean
  /-- A function. -/
  | callback
  /-- A list. -/
  | array
  /-- A record or an instance of a named type. -/
  | object
  /-- Nothing is known. -/
  | unknown
  deriving DecidableEq, Repr

namespace TypeText

/-- Where a walk through a type's text stands. -/
structure Scan where
  /-- Opening brackets less closing ones. -/
  depth : Int
  /-- The quote that opened the literal around this place. -/
  quote : Option Char
  /-- The character before this place. -/
  previous : Char
  deriving DecidableEq, Repr

namespace Scan

/-- The beginning of a text. -/
def start : Scan := ⟨0, none, Char.ofNat 0⟩

/-- How far a character outside of literals changes the depth. -/
def depthChange (previous c : Char) : Int :=
  if c = '(' || c = '[' || c = '\x7b' || c = '<' then 1
  else if c = ')' || c = ']' || c = '\x7d' then -1
  else if c = '>' && previous ≠ '=' then -1
  else 0

/-- Goes on by one character. -/
def step (s : Scan) (c : Char) : Scan :=
  match s.quote with
  | some q => { s with quote := if c = q && s.previous ≠ '\\' then none else some q, previous := c }
  | none =>
    if Text.isQuote c then { s with quote := some c, previous := c }
    else { s with depth := s.depth + depthChange s.previous c, previous := c }

/-- Whether this place is outside of all brackets and literals. -/
def isTop (s : Scan) : Bool := s.quote.isNone && s.depth = 0

end Scan

/-- Cuts a text at its top-level bars; always at least one piece. -/
def splitBars (s : Scan) : List Char → List (List Char)
  | [] => [[]]
  | c :: rest =>
    let pieces := splitBars (s.step c) rest
    if s.isTop && c = '|' then [] :: pieces
    else
      match pieces with
      | piece :: more => (c :: piece) :: more
      | [] => [[c]]

/-- Whether the parenthesis that opens the text, at depth `depth`, is closed by its last
character. -/
def wrapsWhole (depth : Nat) : List Char → Bool
  | [] => false
  | c :: rest =>
    if c = '(' then wrapsWhole (depth + 1) rest
    else if c = ')' then
      if depth = 1 then rest.isEmpty else wrapsWhole (depth - 1) rest
    else wrapsWhole depth rest

/-- The text inside the parentheses that enclose a whole text. -/
def unwrap? (s : List Char) : Option (List Char) :=
  match s with
  | '(' :: rest => if wrapsWhole 0 s then some rest.dropLast else none
  | _ => none

/-- Takes enclosing parentheses off, at most `n` pairs. -/
def stripParens : Nat → List Char → List Char
  | 0, s => s
  | n + 1, s =>
    match unwrap? s with
    | some inner => stripParens n (Text.Blank.trim inner)
    | none => s

/-- A trimmed text without enclosing parentheses. -/
def bare (s : List Char) : List Char :=
  let s := Text.Blank.trim s
  stripParens s.length s

/-- The members of a union; a type that is no union is its only member. -/
def members (s : List Char) : List (List Char) :=
  ((splitBars .start s).map bare).filter (! ·.isEmpty)

/-- The members of a union. -/
def unionMembers (s : String) : List String := (members s.toList).map String.ofList

/-- Whether `undefined` is a member of a union. -/
def includesUndefined (s : String) : Bool := (unionMembers s).contains "undefined"

/-- Whether an arrow stands outside of all brackets and literals. -/
def hasTopArrow (s : Scan) : List Char → Bool
  | [] => false
  | c :: rest => (s.isTop && c = '>' && s.previous = '=') || hasTopArrow (s.step c) rest

/-- Whether a text begins and ends with the same single or double quote. -/
def isStringLiteral (s : List Char) : Bool :=
  match s with
  | first :: rest => (first = '\'' || first = '"') && rest.getLast? = some first
  | [] => false

/-- The names of renderable types. -/
def nodeTypes : List String :=
  ["ReactNode", "React.ReactNode", "ReactElement", "React.ReactElement", "JSX.Element",
    "ReactChild", "React.ReactChild"]

/-- The names of function types. -/
def callbackTypes : List String := ["Function", "VoidFunction", "Dispatch", "React.Dispatch"]

/-- The names of list types. -/
def arrayTypes : List String := ["Array", "ReadonlyArray"]

/-- The names of record types. -/
def objectTypes : List String :=
  ["object", "Object", "Record", "Partial", "Required", "Readonly", "Pick", "Omit", "Map", "Set"]

/-- The shape of a named type. A capitalised name that is not known names a record. -/
def shapeOfName (base : List Char) : TypeShape :=
  let name := String.ofList base
  if name = "string" then .string none
  else if name = "number" then .number none
  else if name = "boolean" || name = "true" || name = "false" then .boolean
  else if nodeTypes.contains name then .node
  else if callbackTypes.contains name || "Handler".toList.isSuffixOf base then .callback
  else if arrayTypes.contains name then .array
  else if objectTypes.contains name then .object
  else if (base.head?.map Char.isUpper).getD false then .object
  else .unknown

/-- The shape of one member of a union. -/
def shapeOfMember (s : List Char) : TypeShape :=
  if hasTopArrow .start s then .callback
  else if "[]".toList.isSuffixOf s || s.head? = some '[' then .array
  else if s.head? = some '\x7b' then .object
  else if isStringLiteral s then .string (some (String.ofList s))
  else if s.head? = some '\x60' then .string none
  else if (Decimal.Binary.read? s).isSome then .number (some (String.ofList s))
  else shapeOfName (Text.Blank.trim (s.takeWhile (· ≠ '<')))

/-- The members that stand for an absent value. -/
def isNullish (s : List Char) : Bool := s = "undefined".toList || s = "null".toList

end TypeText

namespace TypeShape

/-- Whether two shapes agree but for their literals. -/
def sameKind : TypeShape → TypeShape → Bool
  | node, node | string _, string _ | number _, number _ | boolean, boolean
  | callback, callback | array, array | object, object | unknown, unknown => true
  | _, _ => false

/-- The first of some shapes, when all agree with it. -/
def agree : List TypeShape → TypeShape
  | [] => unknown
  | first :: rest => if rest.all (sameKind · first) then first else unknown

/-- The shape of a type's text. -/
def classify (text : String) : TypeShape :=
  agree (((TypeText.members text.toList).filter (! TypeText.isNullish ·)).map
    TypeText.shapeOfMember)

/-- Whether the shape is a function's. -/
def isCallback : TypeShape → Bool
  | callback => true
  | _ => false

/-- Whether the shape settles a mock value before a prop's name is looked at. -/
def isValue : TypeShape → Bool
  | node | string _ | number _ | boolean => true
  | _ => false

end TypeShape

end Trellis
