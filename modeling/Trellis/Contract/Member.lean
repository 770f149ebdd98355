import Trellis.Contract.Basic
import Trellis.Mock
import Trellis.TypeText.Shape

/-! # What is known of a prop

A prop is mentioned in several places: in the declared type of the props, in a destructuring, as a
member of the props, in checks at run time. Each mention is a `PropMember`.

* `PropMembers.merge` adds a mention with a type; a concrete type replaces one that tells nothing,
  and a later concrete type an earlier one.
* `PropMembers.observe` adds a mention without a type, which never changes a type.
* `PropMember.finish` draws the conclusions: whether a prop is required and whether it is called. -/

namespace Trellis

/-- A mention of a prop. -/
structure PropMember where
  /-- The prop's name. -/
  name : String
  /-- The text of its type. -/
  type : String
  /-- Whether the type says that it may be left out. -/
  optional : Bool
  /-- Whether the component has a value for it when it is left out. -/
  hasDefault : Bool
  /-- Whether its type is a function's. -/
  called : Bool
  deriving DecidableEq, Repr

namespace PropMember

/-- A mention without a type. -/
def untyped (name : String) (hasDefault : Bool) : PropMember :=
  ⟨name, "unknown", false, hasDefault, false⟩

/-- Whether a type tells nothing. -/
def isVague (type : String) : Bool := type = "" || type = "any" || type = "unknown"

/-- What two mentions of a prop tell together. -/
def combine (old new : PropMember) : PropMember :=
  if isVague new.type && !isVague old.type then
    { old with hasDefault := old.hasDefault || new.hasDefault }
  else
    { old with
      type := new.type, optional := new.optional, called := new.called,
      hasDefault := old.hasDefault || new.hasDefault }

/-- The prop that all mentions together describe. -/
def finish (m : PropMember) : ComponentProp :=
  let shape := TypeShape.classify m.type
  { name := m.name
    type := m.type
    isRequired := !(m.hasDefault || m.optional || TypeText.includesUndefined m.type)
    isCallback := m.called || shape.isCallback || (!shape.isValue && PropName.isHandler m.name)
    isBoolean := m.type = "boolean" }

end PropMember

/-! ### Lists of props -/

namespace PropMembers

/-- Changes the first prop with a name, or adds one at the end. -/
def update (name : String) (change : PropMember → PropMember) (added : PropMember) :
    List PropMember → List PropMember
  | [] => [added]
  | m :: ms => if m.name = name then change m :: ms else m :: update name change added ms

/-- Adds a mention with a type. -/
def merge (ms : List PropMember) (m : PropMember) : List PropMember :=
  update m.name (·.combine m) m ms

/-- Adds a mention without a type. -/
def observe (ms : List PropMember) (name : String) (hasDefault : Bool) : List PropMember :=
  update name (fun m => { m with hasDefault := m.hasDefault || hasDefault })
    (.untyped name hasDefault) ms

end PropMembers

/-! ### Texts of types -/

namespace TypeText

/-- The text of a type on one line, without separators left over at its end or a leading bar. -/
def normalize (text : String) : String :=
  let s := (Text.collapse text).toList
  let s := (s.reverse.dropWhile fun c => c = ';' || c = ',').reverse
  String.ofList (Text.Blank.trim (s.dropWhile (· = '|')))

end TypeText

end Trellis
