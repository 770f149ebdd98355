import Trellis.Mock
import Trellis.Suite.Layout

/-! # Scenarios

The tests of one component. A test is an opening line, statements, and a closing line; its
scenario says what it checks.

* `crash`, `defaults` and `snapshot` hold for every component.
* `presence` has one test per distinct selector among the first buttons and the first inputs.
* `conditional` has one test per conditional element with a gating prop that the component has.
* `variant` has one parameterised test per boolean prop.
* `interaction` has one test per distinct selector among the enabled interactive elements. -/

namespace Trellis

/-- What a test checks. -/
inductive Scenario where
  /-- Rendering does not throw. -/
  | crash
  /-- The default render is mounted. -/
  | defaults
  /-- An element is present. -/
  | presence
  /-- A gated element is present once its props are forced. -/
  | conditional
  /-- A boolean prop may have either value. -/
  | variant
  /-- An element answers to a user. -/
  | interaction
  /-- The default render matches the snapshot. -/
  | snapshot
  deriving DecidableEq, Repr

/-- Whether tests of this scenario look for an element on the screen. -/
def Scenario.queriesScreen : Scenario → Bool
  | presence | conditional | interaction => true
  | _ => false

/-- Whether tests of this scenario act as a user. -/
def Scenario.actsAsUser : Scenario → Bool
  | interaction => true
  | _ => false

/-- One test. -/
structure TestCase where
  /-- What the test checks. -/
  scenario : Scenario
  /-- The line that opens it. -/
  opening : String
  /-- Its statements. -/
  body : List String
  deriving DecidableEq, Repr

namespace TestCase

/-- The items of a test inside its group. -/
def layout (t : TestCase) : List Layout :=
  .line 1 t.opening :: t.body.map (.line 2) ++ [.closing 1 "\x7d);", .gap]

/-- A test with a title. -/
def titled (scenario : Scenario) (title : String) (body : List String) : TestCase :=
  ⟨scenario, "it(" ++ Text.literal title ++ ", () => \x7b", body⟩

/-- A test with a title that waits for a user's actions. -/
def waiting (scenario : Scenario) (title : String) (body : List String) : TestCase :=
  ⟨scenario, "it(" ++ Text.literal title ++ ", async () => \x7b",
    "const user = userEvent.setup();" :: body⟩

end TestCase

namespace Suite

/-- The name of the function that renders a component. -/
def renderHelper (c : Component) : String := "render" ++ c.name

/-- The statement that renders with the default props. -/
def renderCall (c : Component) : String := renderHelper c ++ "();"

/-- Whether a character may start a name. -/
def isNameStart (c : Char) : Bool := c.isAlpha || c = '_' || c = '$'

/-- Whether a text is a name of ASCII characters. -/
def isName (s : String) : Bool :=
  match s.toList with
  | c :: rest => isNameStart c && rest.all fun c => isNameStart c || c.isDigit
  | [] => false

/-- A prop's name as the key of an object: quoted unless it is a name. -/
def propKey (name : String) : String := if isName name then name else Text.literal name

/-- The default value of a prop as an expression. -/
def propAccess (name : String) : String :=
  if isName name then "defaultProps." ++ name
  else "defaultProps[" ++ Text.literal name ++ "]"

/-- The statement that an expression is in the document. -/
def expectPresent (expression : String) : String :=
  "expect(" ++ expression ++ ").toBeInTheDocument();"

/-- The statement that a callback prop was called. -/
def expectCalled (name : String) : String :=
  "expect(" ++ propAccess name ++ ").toHaveBeenCalled();"

/-! ### Tests of every component -/

/-- Rendering with the default props does not throw. -/
def crashCase (c : Component) : TestCase :=
  ⟨.crash, "it('renders without crashing', () => \x7b",
    ["expect(() => " ++ renderHelper c ++ "()).not.toThrow();"]⟩

/-- The default render is mounted. -/
def defaultsCase (c : Component) : TestCase :=
  ⟨.defaults, "it('renders with default props', () => \x7b",
    ["const \x7b container \x7d = " ++ renderCall c, expectPresent "container"]⟩

/-- The default render matches the snapshot. -/
def snapshotCase (c : Component) : TestCase :=
  ⟨.snapshot, "it('matches the snapshot', () => \x7b",
    ["const \x7b asFragment \x7d = " ++ renderCall c,
      "expect(asFragment()).toMatchSnapshot();"]⟩

/-! ### Presence -/

/-- The elements whose selector is not among `seen` and not that of an earlier element. -/
def distinctSelectors (seen : List Selector) : List InteractiveElement → List InteractiveElement
  | [] => []
  | e :: rest =>
    if seen.contains e.selector then distinctSelectors seen rest
    else e :: distinctSelectors (e.selector :: seen) rest

/-- An element is present in the default render. -/
def presenceCase (c : Component) (e : InteractiveElement) : TestCase :=
  .titled .presence ("renders " ++ e.selector.describe e.kind)
    [renderCall c, expectPresent e.selector.query]

/-- The presence tests of a component. -/
def presenceCases (maxButtons maxInputs : Nat) (c : Component) : List TestCase :=
  (distinctSelectors [] (c.buttons.take maxButtons ++ c.inputs.take maxInputs)).map
    (presenceCase c)

/-! ### Conditional elements -/

/-- A prop that is forced to a truth value. -/
structure Override where
  /-- The prop. -/
  prop : ComponentProp
  /-- The value that is passed. -/
  value : String
  /-- The truth value of that value. -/
  truthy : Bool
  deriving DecidableEq, Repr

/-- The forced values of the props of some names; names of no prop are left out. -/
def forcedProps (f : Framework) (c : Component) (truthy : Bool) (names : List String) :
    List Override :=
  names.filterMap fun name =>
    (c.prop? name).map fun p => ⟨p, Mock.forced f p truthy, truthy⟩

/-- The overrides under which a conditional element is rendered. -/
def overrides (f : Framework) (c : Component) (e : ConditionalElement) : List Override :=
  forcedProps f c true e.requiredProps ++ forcedProps f c false e.falsyProps

/-- The wording of an override in a title. -/
def Override.phrase (o : Override) : String :=
  if o.prop.isBoolean || TypeShape.classify o.prop.type = .boolean || o.value = "true" ||
      o.value = "false" then
    o.prop.name ++ " is " ++ o.value
  else if o.truthy then o.prop.name ++ " is set"
  else o.prop.name ++ " is not set"

/-- An override as an entry of an object. -/
def Override.entry (o : Override) : String := propKey o.prop.name ++ ": " ++ o.value

/-- A gated element is present under some overrides. -/
def conditionalCase (c : Component) (e : ConditionalElement) (os : List Override) : TestCase :=
  .titled .conditional
    ("renders " ++ e.selector.describe e.kind ++ " when " ++
      String.intercalate " and " (os.map Override.phrase))
    [renderHelper c ++ "(\x7b " ++ String.intercalate ", " (os.map Override.entry) ++ " \x7d);",
      expectPresent e.selector.query]

/-- The test of a conditional element, when it has an override. -/
def conditionalCase? (f : Framework) (c : Component) (e : ConditionalElement) :
    Option TestCase :=
  let os := overrides f c e
  if os.isEmpty then none else some (conditionalCase c e os)

/-- The conditional tests of a component. -/
def conditionalCases (f : Framework) (c : Component) : List TestCase :=
  c.conditional.filterMap (conditionalCase? f c)

/-! ### Boolean props -/

/-- A boolean prop may have either value. -/
def variantCase (c : Component) (p : ComponentProp) : TestCase :=
  ⟨.variant,
    "it.each([true, false])(" ++ Text.literal ("renders with " ++ p.name ++ "=%s") ++
      ", (value) => \x7b",
    ["const \x7b container \x7d = " ++ renderHelper c ++ "(\x7b " ++ propKey p.name ++
      ": value \x7d);", expectPresent "container"]⟩

/-- The tests of the boolean props of a component. -/
def variantCases (c : Component) : List TestCase := c.booleanProps.map (variantCase c)

/-! ### Interactions -/

/-- A button can be clicked, and calls its handler. -/
def clickCase (c : Component) (e : InteractiveElement) : TestCase :=
  let target := e.selector.describe e.kind
  let click := "await user.click(" ++ e.selector.query ++ ");"
  match e.handlerProps.head? with
  | some handler =>
    .waiting .interaction ("calls " ++ handler ++ " when " ++ target ++ " is clicked")
      [renderCall c, click, expectCalled handler]
  | none =>
    .waiting .interaction ("handles a click on " ++ target)
      ["const \x7b container \x7d = " ++ renderCall c, click, expectPresent "container"]

/-- The statement that types a text into a field. -/
def typeText (text : String) : String :=
  "await user.type(field, " ++ Text.literal text ++ ");"

/-- The title, the action and the visible effect of using an input. -/
def inputUse (kind : InputKind) (target : String) : String × String × String :=
  match kind with
  | .text =>
    ("accepts typing in " ++ target, typeText "Test input",
      "expect(field).toHaveValue(" ++ Text.literal "Test input" ++ ");")
  | .number =>
    ("accepts a number in " ++ target, typeText "42", "expect(field).toHaveValue(42);")
  | .checkbox | .radio =>
    ("toggles " ++ target, "await user.click(field);", "expect(field).toBeChecked();")
  | .select => ("opens " ++ target, "await user.click(field);", expectPresent "field")

/-- What is checked after using an input: its handler, else its value unless that is set from
outside. -/
def inputCheck (e : InteractiveElement) (effect : String) : String :=
  match e.handlerProps.head? with
  | some handler => expectCalled handler
  | none => if e.controlled then expectPresent "field" else effect

/-- An input can be filled in. -/
def inputCase (c : Component) (e : InteractiveElement) (kind : InputKind) : TestCase :=
  let (title, action, effect) := inputUse kind (e.selector.describe e.kind)
  .waiting .interaction title
    [renderCall c, "const field = " ++ e.selector.query ++ ";", action, inputCheck e effect]

/-- The interaction test of an element. -/
def interactionCase? (c : Component) (e : InteractiveElement) : Option TestCase :=
  match e.kind with
  | .button => some (clickCase c e)
  | .input kind => some (inputCase c e kind)
  | .other _ => none

/-- The interaction tests of a component. -/
def interactionCases (c : Component) : List TestCase :=
  (distinctSelectors [] (c.interactive.filter (! ·.disabled))).filterMap (interactionCase? c)

end Suite

end Trellis
