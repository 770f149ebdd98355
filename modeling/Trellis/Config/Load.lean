import Trellis.Config.Text
import Trellis.Store.Access

/-! # Loading settings

The settings of a project, from all places together.

* The user's file and the project's file need not be there. A user's file that cannot be read is
  passed over; one that is no settings document is an error all the same.
* A file that the command line names takes the place of the project's file and must be there.
* `Config.load` lays all layers over each other and checks the result. -/

namespace Trellis.Config

/-- The settings in a file, not checked. -/
def readFile (s : Store) (p : Path) : Except ConfigFault Config :=
  match s.readText p with
  | .error _ => .error (.fileNotFound p.text)
  | .ok text => readText p.text text

/-- Whether a path leads to anything. -/
def isThere (s : Store) (p : Path) : Bool := (s.entry? p).isSome

/-- The name of the project's file. -/
def projectFile : String := "scaffold.toml"

/-- The user's file. -/
def userFile? (env : Environment) : Option Path :=
  ((env.get? "HOME").orElse fun _ => env.get? "USERPROFILE").map fun home =>
    ((Path.mk home).join ⟨".scaffold"⟩).join ⟨"config.toml"⟩

/-- The layer of the user's file. -/
def userLayer (s : Store) (env : Environment) : Except ConfigFault Config :=
  match userFile? env with
  | none => .ok .empty
  | some p =>
    if isThere s p then
      match readFile s p with
      | .error (.parseError path reason) => .error (.parseError path reason)
      | .error _ => .ok .empty
      | .ok c => .ok c
    else .ok .empty

/-- The layer of the project's file, or of the file in its place. -/
def projectLayer (s : Store) (root : Path) (chosen : Option Path) : Except ConfigFault Config :=
  match chosen with
  | some p => if isThere s p then readFile s p else .error (.fileNotFound p.text)
  | none =>
    let p := root.join ⟨projectFile⟩
    if isThere s p then readFile s p else .ok .empty

/-- The settings of the project at a root. -/
def load (s : Store) (env : Environment) (root : Path) (cli : Overrides) :
    Except ConfigFault Config := do
  let user ← userLayer s env
  let project ← projectLayer s root cli.configPath
  check ((((Config.empty.merge user).merge project).merge (ofEnvironment env)).override cli)

end Trellis.Config
