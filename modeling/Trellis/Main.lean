import Trellis.CommandLine.Run
import Trellis.Store.Change

/-! # The program

Carries out the command line on real files. The files that the program may see are named on standard
input, one a line; they are read first, the command works on what was read, and its changes are then
made. -/

namespace Trellis.Program

/-- The environment variables that are set. -/
def environment : IO Config.Environment := do
  let values ← Config.Environment.names.mapM fun name => do
    return (← IO.getEnv name).map fun value => (name, value)
  return values.filterMap id

/-- Reads a file into a store; one that cannot be read is left out. -/
def addFile (s : Store) (p : Path) : IO Store := do
  try
    let bytes ← IO.FS.readBinFile p.text
    let s := (s.createDirectories p.parent).1
    return (s.write p (.ofBytes bytes.toList)).toOption.getD s
  catch _ => return s

/-- Reads the files that are named line by line. -/
partial def addNamed (input : IO.FS.Stream) (s : Store) : IO Store := do
  let line ← input.getLine
  if line.isEmpty then return s
  let name := String.ofList (line.toList.filter fun c => c ≠ '\n' && c ≠ '\r')
  addNamed input (← addFile s ⟨name⟩)

/-- The store of all files that the program may see. -/
def readStore (env : Config.Environment) : IO Store := do
  let here := Store.steps ((← IO.getEnv "PWD").getD "/")
  let s := ((⟨[], []⟩ : Store).createDirectories (Store.pathOf here)).1
  let s ← addNamed (← IO.getStdin) { s with cwd := here }
  match Config.userFile? env with
  | some p => addFile s p
  | none => return s

/-- Makes a change. -/
def make : Change → IO Unit
  | .makeDirectory p => IO.FS.createDirAll p.text
  | .writeFile p c => IO.FS.writeBinFile p.text ⟨c.bytes.toArray⟩
  | .remove p => IO.FS.removeFile p.text

/-- Carries out a command. -/
def carryOut (c : CommandLine.Command) : IO CommandLine.Outcome := do
  let env ← environment
  let s ← readStore env
  let o := c.run s env
  (s.changes o.store).forM make
  IO.print o.output
  match o.fault with
  | some e => IO.eprintln e.message
  | none => pure ()
  return o

end Trellis.Program

/-- Carries out a command line. -/
def main (args : List String) : IO UInt32 := do
  let ending ←
    match Trellis.CommandLine.Command.read args with
    | .ok c => do pure (.ok (← Trellis.Program.carryOut c))
    | .error e => do
      if e.exit = 0 then IO.print e.message else IO.eprint e.message
      pure (.error e)
  return (Trellis.CommandLine.status ending).toUInt32
