import Trellis.Text.Blank
import Trellis.Text.Quoted

/-! # Test frameworks

The test frameworks for which modules are generated, and what differs between them: the object
that makes stubs, the imports, and the reset of stubs between tests. -/

namespace Trellis

/-- A test framework. -/
inductive Framework where
  /-- Jest, whose test functions are global. -/
  | jest
  /-- Vitest, whose test functions are imported. -/
  | vitest
  deriving DecidableEq, Repr

namespace Framework

/-- The name of a framework. -/
def name : Framework → String
  | jest => "jest"
  | vitest => "vitest"

/-- The framework of a name, in any case and with blanks around it. -/
def ofName? (s : String) : Option Framework :=
  let s := (Text.trim s).toLower
  if s = "jest" then some jest else if s = "vitest" then some vitest else none

/-- The object that makes stubs. -/
def mockNamespace : Framework → String
  | jest => "jest"
  | vitest => "vi"

/-- The expression for a fresh stub. -/
def stub (f : Framework) : String := f.mockNamespace ++ ".fn()"

/-- The statement that resets all stubs. -/
def clearMocks (f : Framework) : String := f.mockNamespace ++ ".clearAllMocks();"

/-- The import that adds the matchers for rendered documents. -/
def matchersImport : Framework → String
  | jest => "import '@testing-library/jest-dom';"
  | vitest => "import '@testing-library/jest-dom/vitest';"

/-- The import of the test functions in use, which are given in alphabetical order. -/
def globalsImport (f : Framework) (used : List String) : Option String :=
  match f with
  | jest => none
  | vitest => some ("import \x7b " ++ String.intercalate ", " used ++ " \x7d from 'vitest';")

end Framework

end Trellis
