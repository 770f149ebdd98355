import Trellis.Config.Basic
import Trellis.Path
import Trellis.Suite.Module

/-! # Placement

Where the module of a source goes, and whether it may be written there.

* `Placement.targetPath` and `Placement.importPath` map a source to its test file and back.
* `carriesMarker` tells generated content: its first line that is not blank begins with the marker.
  Anything else that stands at a target is written by hand and is left alone. -/

namespace Trellis

/-- What may happen at a target. -/
inductive Placement where
  /-- Nothing is there yet. -/
  | create
  /-- A generated file is there and may be replaced. -/
  | regenerate
  /-- Something else is there and must be left alone. -/
  | keep
  deriving DecidableEq, Repr

namespace Placement

/-- Whether the target may be written. -/
def mayWrite : Placement → Bool
  | keep => false
  | _ => true

/-- The name of a placement in reports. -/
def label : Placement → String
  | create => "create"
  | regenerate => "regenerate"
  | keep => "protected"

/-- The first line of a text that is not blank. -/
def firstLine? (s : List Char) : Option (List Char) :=
  (Text.Search.splitWhere (· = '\n') s).find? fun line => !Text.Blank.isEmpty line

/-- Whether a text is marked as generated. -/
def carriesMarker (text : String) : Bool :=
  match firstLine? text.toList with
  | some line => Suite.marker.toList.isPrefixOf (Text.Blank.trimStart line)
  | none => false

/-- Where modules go. -/
structure Policy where
  /-- What stands between the stem and the extension of a test file. -/
  suffix : String
  /-- The directory of test files, as seen from the source. -/
  directory : Option Path
  deriving DecidableEq, Repr

/-- The policy that settings describe. -/
def Policy.ofConfig (g : Config.Generation) : Policy :=
  ⟨g.effectiveTestSuffix, g.testDirectory.map Path.mk⟩

/-- The file name of the module of a source. -/
def Policy.fileName (p : Policy) (source : Path) : String :=
  source.stem ++ "." ++ p.suffix ++
    (match source.extension? with
    | some ext => "." ++ ext
    | none => "")

/-- The directory of the module of a source. -/
def Policy.targetDir (p : Policy) (source : Path) : Path :=
  match p.directory with
  | some sub => source.parent.join sub
  | none => source.parent

/-- The test file of a source. -/
def Policy.targetPath (p : Policy) (source : Path) : Path :=
  (p.targetDir source).join ⟨p.fileName source⟩

/-- How many directories a relative path goes down. -/
def depth (p : Path) : Nat :=
  (p.components.filter fun c =>
    match c with
    | .normal _ => true
    | _ => false).length

/-- The specifier by which the module imports its source. -/
def Policy.importPath (p : Policy) (source : Path) : String :=
  let up := (p.directory.map depth).getD 0
  (if up = 0 then "./" else String.join (List.replicate up "../")) ++ source.stem

end Placement

end Trellis
