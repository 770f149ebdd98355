import Trellis.Selector.Element
import Trellis.Text.Quoted

/-! # Selectors

How a test finds an element. The most stable locator that an element offers is taken, in this
order: a test id, an accessible label, its visible text (for elements that are not filled in), its
placeholder (for those that are), and its role, which every element has.

* `Selector.derive` is total and gives a selector with a trimmed value.
* `Selector.query` is the expression that finds the element in a rendered document,
  `Selector.describe` its wording in a test's title. -/

namespace Trellis

/-- The ways of finding an element, from the most stable one to the least. -/
inductive Strategy where
  /-- By its test id. -/
  | testId
  /-- By its accessible label. -/
  | accessibleLabel
  /-- By its visible text. -/
  | visibleText
  /-- By its placeholder. -/
  | placeholder
  /-- By its role. -/
  | structuralRole
  deriving DecidableEq, Repr

/-- The name of a strategy in reports. -/
def Strategy.name : Strategy → String
  | testId => "test-id"
  | accessibleLabel => "accessible-label"
  | visibleText => "visible-text"
  | placeholder => "placeholder"
  | structuralRole => "structural-role"

/-- A way of finding one element. A selector by role repeats the role. -/
structure Selector where
  /-- How the element is found. -/
  strategy : Strategy
  /-- What is looked for. -/
  value : String
  /-- The role that is looked for. -/
  role : Option String
  deriving DecidableEq, Repr

namespace Selector

/-- A selector by role. -/
def byRole (role : String) : Selector := ⟨.structuralRole, role, some role⟩

/-- The visible text that can serve as a locator: whitespace collapsed and not empty. -/
def usableText (kind : ElementKind) (text : Option String) : Option String :=
  if kind.isInput then none
  else (text.map Text.collapse).filter (· ≠ "")

/-- The placeholder that can serve as a locator. -/
def usablePlaceholder (kind : ElementKind) (attributes : Attributes) : Option String :=
  if kind.isInput then attributes.text "placeholder" else none

/-- The selector of an element: the first locator it offers. -/
def derive (attributes : Attributes) (text : Option String) (kind : ElementKind) : Selector :=
  match attributes.text "data-testid" with
  | some id => ⟨.testId, id, none⟩
  | none =>
    match attributes.text "aria-label" with
    | some label => ⟨.accessibleLabel, label, none⟩
    | none =>
      match usableText kind text with
      | some shown => ⟨.visibleText, shown, none⟩
      | none =>
        match usablePlaceholder kind attributes with
        | some hint => ⟨.placeholder, hint, none⟩
        | none => byRole ((attributes.text "role").getD kind.defaultRole)

/-- The role that a selector by role looks for. -/
def soughtRole (s : Selector) : String := s.role.getD s.value

/-- The expression that finds the element. -/
def query (s : Selector) : String :=
  let value := Text.literal s.value
  match s.strategy with
  | .testId => "screen.getByTestId(" ++ value ++ ")"
  | .accessibleLabel => "screen.getByLabelText(" ++ value ++ ")"
  | .visibleText => "screen.getByText(" ++ value ++ ")"
  | .placeholder => "screen.getByPlaceholderText(" ++ value ++ ")"
  | .structuralRole => "screen.getAllByRole(" ++ Text.literal s.soughtRole ++ ")[0]"

/-- The wording of the element in a title. -/
def describe (s : Selector) (kind : ElementKind) : String :=
  let noun := kind.noun
  match s.strategy with
  | .structuralRole =>
    if s.soughtRole = noun then "the first " ++ noun
    else "the first " ++ s.soughtRole ++ " " ++ noun
  | _ => "the \"" ++ s.value ++ "\" " ++ noun

end Selector

end Trellis
