import Trellis.Selector.Attribute
import Trellis.Selector.Role

/-! # Kinds of elements

What a user can do with an element: press it, fill it in, or only see it.

`ElementKind.classify` decides by the tag and the attributes. An explicit role `button` wins over
the tag; an `input` is told apart by its type, and types that are neither typed into nor clicked
make it an element that is only seen. -/

namespace Trellis

/-- The flavours of elements that are filled in. -/
inductive InputKind where
  /-- A text field. -/
  | text
  /-- A number field. -/
  | number
  /-- A check box. -/
  | checkbox
  /-- A radio button. -/
  | radio
  /-- A choice list. -/
  | select
  deriving DecidableEq, Repr

/-- The role of an input of this kind. -/
def InputKind.role : InputKind → String
  | text => "textbox"
  | number => "spinbutton"
  | checkbox => "checkbox"
  | radio => "radio"
  | select => "combobox"

/-- What an element is for. -/
inductive ElementKind where
  /-- An element that is pressed. -/
  | button
  /-- An element that is filled in. -/
  | input (kind : InputKind)
  /-- Any other element, with its implicit role. -/
  | other (role : Option String)
  deriving DecidableEq, Repr

namespace ElementKind

/-- The types of `input` that are neither typed into nor clicked. -/
def passiveTypes : List String :=
  ["range", "date", "datetime-local", "month", "time", "week", "color", "file", "hidden", "image"]

/-- The kind of an `input` of a given type. -/
def ofInputType (type : Option String) : ElementKind :=
  match type with
  | some "checkbox" => input .checkbox
  | some "radio" => input .radio
  | some "number" => input .number
  | some "button" | some "submit" | some "reset" => button
  | some t => if passiveTypes.contains t then other (inputRole (some t)) else input .text
  | none => input .text

/-- The kind of a tag, given the `type` attribute. -/
def ofTag (tag : String) (type : Option String) : ElementKind :=
  match tag with
  | "button" => button
  | "input" => ofInputType type
  | "textarea" => input .text
  | "select" => input .select
  | _ => other (implicitRole tag type)

/-- The kind of an element. -/
def classify (tag : String) (attributes : Attributes) : ElementKind :=
  if attributes.text "role" = some "button" then button else ofTag tag (attributes.text "type")

/-- Whether a user acts on the element. -/
def isInteractive : ElementKind → Bool
  | other _ => false
  | _ => true

/-- Whether the element is filled in. -/
def isInput : ElementKind → Bool
  | input _ => true
  | _ => false

/-- The role by which the element is found when nothing better is known. -/
def defaultRole : ElementKind → String
  | button => "button"
  | input kind => kind.role
  | other role => role.getD "generic"

/-- The word for the element in test titles. -/
def noun : ElementKind → String
  | button => "button"
  | input .select => "select"
  | input .checkbox => "checkbox"
  | input .radio => "radio"
  | input .text | input .number => "input"
  | other _ => "element"

end ElementKind

end Trellis
