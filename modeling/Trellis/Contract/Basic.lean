import Trellis.Selector.Derive

/-! # Component contracts

What is known of one exported component: its props, the elements a user acts on, and the elements
that show up only under a condition on the props. -/

namespace Trellis

/-- How a component leaves its module. -/
inductive ExportKind where
  /-- As the default export. -/
  | default
  /-- Under a name. -/
  | named
  deriving DecidableEq, Repr

/-- A declared or inferred prop of a component. -/
structure ComponentProp where
  /-- The prop's name. -/
  name : String
  /-- The declared type's text with collapsed blanks; `unknown` when there is none. -/
  type : String
  /-- Whether a render must supply it. -/
  isRequired : Bool
  /-- Whether it is a function that the component calls back. -/
  isCallback : Bool
  /-- Whether the declared type is exactly `boolean`. -/
  isBoolean : Bool
  deriving DecidableEq, Repr

/-- An element that a user acts on. -/
structure InteractiveElement where
  /-- What the element is for. -/
  kind : ElementKind
  /-- The tag it is written with. -/
  tag : String
  /-- How it is found. -/
  selector : Selector
  /-- The callback props that its handlers mention. -/
  handlerProps : List String
  /-- Whether its value is set from outside. -/
  controlled : Bool
  /-- Whether it is always disabled. -/
  disabled : Bool
  /-- The line of its tag. -/
  line : Nat
  deriving DecidableEq, Repr

/-- An element that is rendered only when its gating props hold. -/
structure ConditionalElement where
  /-- What the element is for. -/
  kind : ElementKind
  /-- The tag it is written with. -/
  tag : String
  /-- How it is found. -/
  selector : Selector
  /-- The props that must be truthy. -/
  requiredProps : List String
  /-- The props that must be falsy. -/
  falsyProps : List String
  /-- The line of its tag. -/
  line : Nat
  deriving DecidableEq, Repr

/-- What is known of an exported component. -/
structure Component where
  /-- The name it is declared under. -/
  name : String
  /-- How it leaves its module. -/
  exportKind : ExportKind
  /-- The name it is exported under. -/
  exportedAs : String
  /-- Its props, in order of their first mention. -/
  props : List ComponentProp
  /-- The interactive elements that are always rendered. -/
  interactive : List InteractiveElement
  /-- The elements that are rendered under a condition. -/
  conditional : List ConditionalElement
  /-- The number of markup elements. -/
  markupCount : Nat
  /-- The line of its declaration. -/
  line : Nat
  deriving DecidableEq, Repr

namespace Component

/-- The prop of a given name. -/
def prop? (c : Component) (name : String) : Option ComponentProp :=
  c.props.find? (·.name = name)

/-- The elements that are pressed. -/
def buttons (c : Component) : List InteractiveElement :=
  c.interactive.filter (·.kind = .button)

/-- The elements that are filled in. -/
def inputs (c : Component) : List InteractiveElement := c.interactive.filter (·.kind.isInput)

/-- The props whose type is exactly `boolean`. -/
def booleanProps (c : Component) : List ComponentProp := c.props.filter (·.isBoolean)

end Component

end Trellis
