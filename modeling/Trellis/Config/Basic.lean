import Trellis.Decimal.Digits
import Trellis.Suite.Module

/-! # Settings

The settings of a run in three sections: which files are taken, how modules are generated, and the
coverage loop.

Every setting may be unset. A setting that is one value is unset when it is absent, a list when it
is empty; the `effective` functions put the default in its place. -/

namespace Trellis.Config

open Decimal (Binary)

/-- A list of texts, or the default when it is empty. -/
def orDefault (configured defaults : List String) : List String :=
  if configured.isEmpty then defaults else configured

/-- Which files are taken. -/
structure Scan where
  /-- The greatest size of a file in bytes. -/
  maxFileSize : Option Nat
  /-- Patterns of which a path must match one, when there are any. -/
  includes : List String
  /-- Patterns of paths that are left out. -/
  extraIgnore : List String
  /-- Whether symbolic links are followed. -/
  followSymlinks : Option Bool
  /-- The extensions of component sources. -/
  extensions : List String
  /-- The names of directories that hold tests. -/
  testDirNames : List String
  /-- The fragments by which the file names of tests are known. -/
  testFileMarkers : List String
  deriving DecidableEq, Repr, Inhabited

namespace Scan

/-- Nothing set. -/
def empty : Scan := ⟨none, [], [], none, [], [], []⟩

/-- The greatest size of a file; one mebibyte by default. -/
def effectiveMaxFileSize (s : Scan) : Nat := s.maxFileSize.getD 1048576

/-- Whether symbolic links are followed; they are not by default. -/
def effectiveFollowSymlinks (s : Scan) : Bool := s.followSymlinks.getD false

/-- The extensions of component sources. -/
def effectiveExtensions (s : Scan) : List String := orDefault s.extensions ["tsx", "jsx", "js"]

/-- The names of directories that hold tests. -/
def effectiveTestDirNames (s : Scan) : List String :=
  orDefault s.testDirNames ["__tests__", "__mocks__", "test", "tests"]

/-- The fragments by which the file names of tests are known. -/
def effectiveTestFileMarkers (s : Scan) : List String :=
  orDefault s.testFileMarkers [".test.", ".spec.", ".stories.", ".d.ts"]

end Scan

/-- How modules are generated and where they go. -/
structure Generation where
  /-- The test framework. -/
  framework : Option Framework
  /-- Whether boolean props get tests of their own. -/
  variants : Option Bool
  /-- How many buttons are checked for presence. -/
  maxButtons : Option Nat
  /-- How many inputs are checked for presence. -/
  maxInputs : Option Nat
  /-- What stands between the stem and the extension of a test file. -/
  testSuffix : Option String
  /-- The directory of test files, as seen from the source. -/
  testDirectory : Option String
  /-- The module that renders. -/
  renderModule : Option String
  /-- The module that acts as a user. -/
  userEventModule : Option String
  /-- The module of a component around every render. -/
  wrapperImport : Option String
  /-- The name of that component. -/
  wrapperName : Option String
  deriving DecidableEq, Repr, Inhabited

namespace Generation

/-- Nothing set. -/
def empty : Generation := ⟨none, none, none, none, none, none, none, none, none, none⟩

/-- The test framework. -/
def effectiveFramework (g : Generation) : Framework := g.framework.getD .jest

/-- Whether boolean props get tests of their own. -/
def effectiveVariants (g : Generation) : Bool := g.variants.getD true

/-- How many buttons are checked for presence. -/
def effectiveMaxButtons (g : Generation) : Nat := g.maxButtons.getD 2

/-- How many inputs are checked for presence. -/
def effectiveMaxInputs (g : Generation) : Nat := g.maxInputs.getD 2

/-- What stands between the stem and the extension of a test file. -/
def effectiveTestSuffix (g : Generation) : String := g.testSuffix.getD "test"

/-- The module that renders. -/
def effectiveRenderModule (g : Generation) : String := g.renderModule.getD "@testing-library/react"

/-- The module that acts as a user. -/
def effectiveUserEventModule (g : Generation) : String :=
  g.userEventModule.getD "@testing-library/user-event"

/-- The module and the name of a component around every render, when both are set. -/
def wrapper (g : Generation) : Option (String × String) :=
  match g.wrapperImport, g.wrapperName with
  | some path, some name => some (path, name)
  | _, _ => none

/-- The settings of the module text. -/
def suiteSettings (g : Generation) : Suite.Settings :=
  { framework := g.effectiveFramework
    variants := g.effectiveVariants
    maxButtons := g.effectiveMaxButtons
    maxInputs := g.effectiveMaxInputs
    renderModule := g.effectiveRenderModule
    userEventModule := g.effectiveUserEventModule
    wrapper := g.wrapper }

end Generation

/-- How coverage is measured, and when a module is enriched. -/
structure Coverage where
  /-- Whether coverage is measured at all. -/
  enabled : Option Bool
  /-- The percentage below which a module is enriched. -/
  threshold : Option Binary
  /-- The command that runs a test, program first. -/
  command : List String
  /-- Where the command leaves its summary, as seen from the root. -/
  summaryPath : Option String
  /-- After how many seconds the command is stopped. -/
  timeoutSeconds : Option Nat
  /-- Whether the command's output is shown. -/
  inheritOutput : Option Bool
  deriving DecidableEq, Repr, Inhabited

namespace Coverage

/-- Nothing set. -/
def empty : Coverage := ⟨none, none, [], none, none, none⟩

/-- Whether coverage is measured at all. -/
def effectiveEnabled (c : Coverage) : Bool := c.enabled.getD false

/-- The percentage below which a module is enriched. -/
def effectiveThreshold (c : Coverage) : Binary := c.threshold.getD (Binary.ofNat 50)

/-- The command that runs a test. -/
def effectiveCommand (c : Coverage) : List String :=
  orDefault c.command
    ["npx", "jest", "\x7btest_file\x7d", "--coverage", "--coverageReporters=json-summary",
      "--collectCoverageFrom=\x7bsource_file\x7d", "--watchAll=false"]

/-- Where the command leaves its summary. -/
def effectiveSummaryPath (c : Coverage) : String :=
  c.summaryPath.getD "coverage/coverage-summary.json"

/-- Whether the command's output is shown. -/
def effectiveInheritOutput (c : Coverage) : Bool := c.inheritOutput.getD false

end Coverage

end Trellis.Config

namespace Trellis

/-- All settings of a run. -/
structure Config where
  /-- Which files are taken. -/
  scan : Config.Scan
  /-- How modules are generated. -/
  generation : Config.Generation
  /-- The coverage loop. -/
  coverage : Config.Coverage
  deriving DecidableEq, Repr, Inhabited

/-- Nothing set. -/
def Config.empty : Config := ⟨.empty, .empty, .empty⟩

end Trellis
