import Trellis.Config.Basic
import Trellis.Path

/-! # The command of a test run

A configured command is a list of arguments, program first. In every argument, places for the test
file and the source file are filled with their paths, as seen from the root and with forward
slashes. -/

namespace Trellis.Coverage

/-- The place for the test file. -/
def testPlace : String := "\x7btest_file\x7d"

/-- The place for the source file. -/
def sourcePlace : String := "\x7bsource_file\x7d"

/-- A path as it is put into a command run at `root`. -/
def shownPath (root p : Path) : String := Text.replaceAll (p.relativeTo root).text "\\" "/"

/-- An argument with its places filled, that of the test file first. -/
def fill (test source : String) (argument : String) : String :=
  Text.replaceAll (Text.replaceAll argument testPlace test) sourcePlace source

/-- The arguments of a test run. -/
def arguments (command : List String) (root test source : Path) : List String :=
  command.map (fill (shownPath root test) (shownPath root source))

end Trellis.Coverage
