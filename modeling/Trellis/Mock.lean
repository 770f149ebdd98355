import Trellis.Contract.Basic
import Trellis.Framework
import Trellis.Text.Search
import Trellis.TypeText.Shape

/-! # Mock values

The expression that a generated test passes for a prop.

* `Mock.value` is the default value. The prop's name `children` and the shape of its type come
  first, then a name that sounds like a truth value, then callbacks, then lists and records, then a
  name that sounds like an identifier.
* `Mock.forced` is a value of a given truth value, for props that decide whether an element is
  rendered. -/

namespace Trellis

namespace PropName

/-- Whether a name starts with `start` and goes on with a capital letter. -/
def hasHumpAfter (start : String) (name : String) : Bool :=
  match Text.Search.dropStart? start.toList name.toList with
  | some (c :: _) => c.isUpper
  | _ => false

/-- Whether a name sounds like a truth value: `isOpen`, `hasError`, `canEdit`. -/
def isBoolean (name : String) : Bool :=
  ["is", "has", "show", "can", "should"].any (hasHumpAfter · name)

/-- Whether a name sounds like an event handler: `onClick`. -/
def isHandler (name : String) : Bool := hasHumpAfter "on" name

/-- Whether a name sounds like an identifier: `id`, `userId`, `accountID`, `parent_id`. -/
def isIdentifier (name : String) : Bool :=
  name = "id" || ["Id", "ID", "_id"].any (Text.endsWith name ·)

end PropName

namespace Mock

/-- The markup passed for renderable props. -/
def node : String := "<div>Test content</div>"

/-- The value of a prop about which nothing is known. -/
def absent : String := "undefined"

/-- The value of a prop whose shape and name settle nothing but whether it is called back. -/
def fallback (f : Framework) (p : ComponentProp) (shape : TypeShape) : String :=
  if p.isCallback || shape.isCallback || PropName.isHandler p.name then f.stub
  else
    match shape with
    | .array => "[]"
    | .object => "\x7b\x7d"
    | _ => if PropName.isIdentifier p.name then Text.literal (p.name ++ "-1") else absent

/-- The default value of a prop. -/
def value (f : Framework) (p : ComponentProp) : String :=
  if p.name = "children" then node
  else
    match TypeShape.classify p.type with
    | .node => node
    | .string (some text) => text
    | .string none => Text.literal ("Test " ++ p.name)
    | .number (some text) => text
    | .number none => "42"
    | .boolean => "true"
    | .unknown => if PropName.isBoolean p.name then "true" else fallback f p .unknown
    | shape => fallback f p shape

/-- Whether a prop is passed as a truth value. -/
def isBooleanLike (p : ComponentProp) : Bool :=
  p.isBoolean ||
  match TypeShape.classify p.type with
  | .boolean => true
  | .unknown => PropName.isBoolean p.name
  | _ => false

/-- The text of a truth value. -/
def truth (b : Bool) : String := if b then "true" else "false"

/-- The values that stand for no value even as the default of a prop. -/
def isFalsyDefault (v : String) : Bool := v = absent || v = "''" || v = "0"

/-- A value of a prop with the given truth value. -/
def forced (f : Framework) (p : ComponentProp) (truthy : Bool) : String :=
  if isBooleanLike p then truth truthy
  else if !truthy then absent
  else if isFalsyDefault (value f p) then "true"
  else value f p

end Mock

end Trellis
