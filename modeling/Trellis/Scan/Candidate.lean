import Trellis.Config.Basic
import Trellis.Path

/-! # Candidates

Which files are taken for component sources: those with one of the configured extensions that are
no tests by the name of a directory or of the file.

* Directory names count below the root only, so that a project may itself lie in a test directory.
* `selectCandidates` filters an explicit list; it keeps the order and drops repetitions. -/

namespace Trellis

/-- What tells candidates. -/
structure CandidateFilter where
  /-- The extensions of sources. -/
  extensions : List String
  /-- The names of directories that hold tests. -/
  testDirNames : List String
  /-- The fragments by which the file names of tests are known. -/
  testFileMarkers : List String
  deriving DecidableEq, Repr

namespace CandidateFilter

/-- The filter that settings describe. -/
def ofConfig (s : Config.Scan) : CandidateFilter :=
  ⟨s.effectiveExtensions, s.effectiveTestDirNames, s.effectiveTestFileMarkers⟩

/-- The text of a component. -/
def componentText : Path.Component → String
  | .root => "/"
  | .current => "."
  | .parent => ".."
  | .normal name => name

/-- Whether a directory on the way to a file holds tests. -/
def inTestDir (f : CandidateFilter) (p : Path) : Bool :=
  match p.parent? with
  | none => false
  | some dir => dir.components.any fun c => f.testDirNames.contains (componentText c)

/-- Whether the file name is that of a test. -/
def hasTestName (f : CandidateFilter) (p : Path) : Bool :=
  f.testFileMarkers.any fun marker => Text.contains (p.fileName?.getD "") marker

/-- Whether a path is that of a test. -/
def isTestPath (f : CandidateFilter) (p : Path) : Bool := f.inTestDir p || f.hasTestName p

/-- Whether a path has the extension of a source. -/
def hasExtension (f : CandidateFilter) (p : Path) : Bool :=
  match p.extension? with
  | some ext => f.extensions.contains ext
  | none => false

/-- Whether a path is a candidate of the project at `root`. -/
def accepts (f : CandidateFilter) (p root : Path) : Bool :=
  f.hasExtension p && !f.isTestPath (p.relativeTo root)

end CandidateFilter

/-- The paths that are the same as none of `seen` and as no earlier one. -/
def distinctPaths (seen : List Path) : List Path → List Path
  | [] => []
  | p :: rest =>
    if seen.any (·.same p) then distinctPaths seen rest else p :: distinctPaths (p :: seen) rest

/-- The candidates of an explicit list, relative paths taken from the root. Files that do not exist
are kept. -/
def selectCandidates (s : Config.Scan) (root : Path) (paths : List Path) : List Path :=
  distinctPaths []
    ((paths.map root.join).filter fun p => (CandidateFilter.ofConfig s).accepts p root)

end Trellis
