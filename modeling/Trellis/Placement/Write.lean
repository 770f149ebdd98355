import Trellis.Placement
import Trellis.Store.Access

/-! # Writing modules

How a module comes to stand at its target.

* `Placement.check` looks at a target: nothing there may be created, a text with the marker may be
  replaced, and everything else is kept.
* `Placement.write` writes only what carries the marker, and only where `check` allows it. -/

namespace Trellis.Placement

/-- What a content calls for where it stands. -/
def ofContent : Content → Placement
  | .text t => if carriesMarker t then regenerate else keep
  | .binary _ => keep

/-- What may happen at a target. -/
def check (s : Store) (target : Path) : Except WriteFault Placement :=
  if s.isDirectory target then .ok keep
  else
    match s.read target with
    | .ok c => .ok (ofContent c)
    | .error .notFound => .ok create
    | .error e => .error (.store target e)

/-- Makes the directory of a target. -/
def makeRoom (s : Store) (target : Path) : Store × Option WriteFault :=
  if target.parent.text = "" then (s, none)
  else
    match s.createDirectories target.parent with
    | (s, none) => (s, none)
    | (s, some e) => (s, some (.store target.parent e))

/-- Puts a text at a target, in a directory that is made for it. -/
def put (s : Store) (target : Path) (text : String) : Store × Option WriteFault :=
  match makeRoom s target with
  | (s, some e) => (s, some e)
  | (s, none) =>
    match s.write target (.text text) with
    | .ok s => (s, none)
    | .error e => (s, some (.store target e))

/-- What a write of a text at a target comes to, before anything is changed. -/
def permit (s : Store) (target : Path) (text : String) : Except WriteFault Placement :=
  if !carriesMarker text then .error (.missingMarker target)
  else
    match check s target with
    | .error e => .error e
    | .ok p => if p.mayWrite then .ok p else .error (.manualTestPresent target)

/-- Writes a module, unless it is not marked or something written by hand is in its place. -/
def write (s : Store) (target : Path) (text : String) : Store × Except WriteFault Placement :=
  match permit s target text with
  | .error e => (s, .error e)
  | .ok p =>
    match put s target text with
    | (s, none) => (s, .ok p)
    | (s, some e) => (s, .error e)

end Trellis.Placement
