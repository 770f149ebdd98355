import Trellis.Suite.Scenario

/-! # Test modules

A generated test module has a header, imports, and one group of tests per component.

* `Suite.Group.ofComponent` gives the group of a component: default props for everything a render
  must supply and for every callback, a helper that renders with overrides, a reset of the stubs
  when there are any, and the tests.
* `Suite.imports` lists what the groups use.
* `Suite.text` writes the module. It is a function of the components, the target, the pass and the
  settings. -/

namespace Trellis

/-- Which tests a module has. -/
inductive Pass where
  /-- The tests that need nothing but the default props. -/
  | minimal
  /-- All tests. -/
  | enriched
  deriving DecidableEq, Repr

/-- The number of a pass. -/
def Pass.number : Pass → Nat
  | minimal => 1
  | enriched => 2

/-- The name of a pass. -/
def Pass.label : Pass → String
  | minimal => "minimal"
  | enriched => "enriched"

namespace Suite

/-- The beginning of the line that marks a generated file. -/
def marker : String := "// @generated by scaffold"

/-- The line that marks a generated file. -/
def header : String := "// @generated by scaffold. Delete this line to keep manual edits."

/-- How modules are generated. -/
structure Settings where
  /-- The test framework. -/
  framework : Framework
  /-- Whether boolean props get tests of their own. -/
  variants : Bool
  /-- How many buttons are checked for presence. -/
  maxButtons : Nat
  /-- How many inputs are checked for presence. -/
  maxInputs : Nat
  /-- The module that renders. -/
  renderModule : String
  /-- The module that acts as a user. -/
  userEventModule : String
  /-- The module and the name of a component around every render. -/
  wrapper : Option (String × String)
  deriving DecidableEq, Repr

/-- What a module tests, as seen from the module. -/
structure Target where
  /-- The file name of the tested module. -/
  sourceName : String
  /-- How the tested module is imported. -/
  importPath : String
  /-- Whether the module has type ascriptions. -/
  typed : Bool
  deriving DecidableEq, Repr

/-- The tests of one component. -/
structure Group where
  /-- The component. -/
  component : Component
  /-- The default props with their values. -/
  defaults : List (ComponentProp × String)
  /-- Whether a default is a stub. -/
  hasStubs : Bool
  /-- The tests, in order. -/
  cases : List TestCase
  deriving DecidableEq, Repr

/-- Every required prop and every callback with its value. -/
def defaultProps (f : Framework) (c : Component) : List (ComponentProp × String) :=
  (c.props.filter fun p => p.isRequired || p.isCallback).map fun p => (p, Mock.value f p)

/-- The tests of the enriched pass alone. -/
def enrichedCases (s : Settings) (c : Component) : List TestCase :=
  conditionalCases s.framework c ++ (if s.variants then variantCases c else []) ++
    interactionCases c

/-- The tests of a component. -/
def testCases (s : Settings) (pass : Pass) (c : Component) : List TestCase :=
  [crashCase c, defaultsCase c] ++ presenceCases s.maxButtons s.maxInputs c ++
    (match pass with
    | .minimal => []
    | .enriched => enrichedCases s c) ++
    [snapshotCase c]

/-- The group of a component. -/
def Group.ofComponent (s : Settings) (pass : Pass) (c : Component) : Group :=
  let defaults := defaultProps s.framework c
  { component := c
    defaults := defaults
    hasStubs := defaults.any fun d => d.2 = s.framework.stub
    cases := testCases s pass c }

/-! ### Groups as text -/

/-- The type of a component's props. -/
def propsType (c : Component) : String := "React.ComponentProps<typeof " ++ c.name ++ ">"

/-- The object of default props. -/
def defaultsLayout (typed : Bool) (g : Group) : List Layout :=
  let assertion := if typed then " as " ++ propsType g.component else ""
  if g.defaults.isEmpty then [.line 1 ("const defaultProps = \x7b\x7d" ++ assertion ++ ";")]
  else
    .line 1 "const defaultProps = \x7b" ::
      g.defaults.map (fun d => .line 2 (propKey d.1.name ++ ": " ++ d.2 ++ ",")) ++
      [.closing 1 ("\x7d" ++ assertion ++ ";")]

/-- The parameter of the render helper. -/
def overridesParameter (typed : Bool) (c : Component) : String :=
  if typed then "overrides: Partial<" ++ propsType c ++ "> = \x7b\x7d"
  else "overrides = \x7b\x7d"

/-- The element that the render helper renders. -/
def renderedElement (c : Component) : String :=
  "<" ++ c.name ++ " \x7b...defaultProps\x7d \x7b...overrides\x7d />"

/-- The statement of the render helper. -/
def renderStatement (wrapper : Option String) (c : Component) : String :=
  match wrapper with
  | some name => "render(" ++ renderedElement c ++ ", \x7b wrapper: " ++ name ++ " \x7d);"
  | none => "render(" ++ renderedElement c ++ ");"

/-- The helper that renders the component. -/
def helperLayout (typed : Bool) (wrapper : Option String) (c : Component) : List Layout :=
  [.line 1 ("const " ++ renderHelper c ++ " = (" ++ overridesParameter typed c ++ ") =>"),
    .line 2 (renderStatement wrapper c)]

/-- The reset of the stubs before each test. -/
def resetLayout (f : Framework) : List Layout :=
  [.line 1 "beforeEach(() => \x7b", .line 2 f.clearMocks, .closing 1 "\x7d);"]

/-- A group with its opening and its closing line. -/
def Group.layout (s : Settings) (typed : Bool) (g : Group) : List Layout :=
  .line 0 ("describe(" ++ Text.literal g.component.name ++ ", () => \x7b") ::
    defaultsLayout typed g ++ [.gap] ++
    helperLayout typed (s.wrapper.map Prod.snd) g.component ++ [.gap] ++
    (if g.hasStubs then resetLayout s.framework ++ [.gap] else []) ++
    g.cases.flatMap TestCase.layout ++
    [.closing 0 "\x7d);"]

/-! ### Imports -/

/-- Whether a test looks for an element on the screen. -/
def usesScreen (gs : List Group) : Bool :=
  gs.any fun g => g.cases.any (·.scenario.queriesScreen)

/-- Whether a test acts as a user. -/
def usesUser (gs : List Group) : Bool :=
  gs.any fun g => g.cases.any (·.scenario.actsAsUser)

/-- Whether a default prop is a stub. -/
def usesStubs (gs : List Group) : Bool := gs.any (·.hasStubs)

/-- The framework's functions in use, in alphabetical order. -/
def usedGlobals (f : Framework) (gs : List Group) : List String :=
  (if usesStubs gs then ["beforeEach"] else []) ++ ["describe", "expect", "it"] ++
    (if usesStubs gs then [f.mockNamespace] else [])

/-- How a named export is imported under its component's name. -/
def importSpecifier (c : Component) : String :=
  if c.exportedAs = c.name then c.name else c.exportedAs ++ " as " ++ c.name

/-- Names in the braces of an import. -/
def importBraces (names : List String) : String :=
  "\x7b " ++ String.intercalate ", " names ++ " \x7d"

/-- What is imported from the tested module. -/
def importClause (cs : List Component) : String :=
  let named := (cs.filter (·.exportKind = .named)).map importSpecifier
  match cs.find? (·.exportKind = .default) with
  | some c => if named.isEmpty then c.name else c.name ++ ", " ++ importBraces named
  | none => importBraces named

/-- The import of the tested components. -/
def componentImport (cs : List Component) (path : String) : String :=
  "import " ++ importClause cs ++ " from '" ++ path ++ "';"

/-- The imports of a module. -/
def imports (s : Settings) (target : Target) (cs : List Component) (gs : List Group) :
    List String :=
  (s.framework.globalsImport (usedGlobals s.framework gs)).toList ++
  ["import React from 'react';",
    "import \x7b " ++ (if usesScreen gs then "render, screen" else "render") ++ " \x7d from '" ++
      s.renderModule ++ "';"] ++
  (if usesUser gs then ["import userEvent from '" ++ s.userEventModule ++ "';"] else []) ++
  [s.framework.matchersImport] ++
  (match s.wrapper with
  | some (path, name) => ["import \x7b " ++ name ++ " \x7d from '" ++ path ++ "';"]
  | none => []) ++
  [componentImport cs target.importPath]

/-! ### The module -/

/-- The line that names the tested module. -/
def sourceLine (target : Target) (pass : Pass) : String :=
  "// Source: " ++ target.sourceName ++ " (pass " ++ toString pass.number ++ ", " ++ pass.label ++
    ")"

/-- The header and the imports. -/
def headLayout (s : Settings) (target : Target) (pass : Pass) (cs : List Component)
    (gs : List Group) : List Layout :=
  [.line 0 header, .line 0 (sourceLine target pass), .gap] ++
    (imports s target cs gs).map (.line 0) ++ [.gap]

/-- The groups, with a gap after each. -/
def bodyLayout (s : Settings) (typed : Bool) (gs : List Group) : List Layout :=
  gs.flatMap fun g => g.layout s typed ++ [.gap]

/-- The module that tests some components. -/
def text (s : Settings) (target : Target) (pass : Pass) (cs : List Component) : String :=
  let gs := cs.map (Group.ofComponent s pass)
  String.ofList (Layout.finish
    (Layout.render (headLayout s target pass cs gs) ++
      Layout.render (bodyLayout s target.typed gs)))

end Suite

end Trellis
