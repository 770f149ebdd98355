import Trellis.Coverage.Command
import Trellis.Coverage.Tools
import Trellis.Shell.Run

/-! # The configured tools

The tools of the coverage loop that settings describe: a command that is run at the root, and the
summary that it leaves.

* `Runner.run` starts the command. It is a success only if it ends with status zero, in time. -/

namespace Trellis.Coverage

/-- A command and how it is run. -/
structure Runner where
  /-- The command, program first, with places for the test and the source. -/
  command : List String
  /-- The directory in which it runs. -/
  directory : Path
  /-- After how many seconds it is stopped. -/
  timeout : Option Nat
  deriving DecidableEq, Repr

namespace Runner

/-- The runner that settings describe. -/
def ofConfig (c : Config.Coverage) (root : Path) : Runner :=
  ⟨c.effectiveCommand, root, c.timeoutSeconds⟩

/-- Why a file cannot be started as a program. Files in the store are no programs. -/
def cause (s : Store) (program : String) : FileFault :=
  if program.toList.contains '/' then
    match s.locate true ⟨program⟩ with
    | .ok (.at ..) => .denied
    | .ok (.free ..) => .notFound
    | .error e => e
  else .notFound

/-- A program that is ready to start in a store whose directory is the runner's. -/
def prepare (r : Runner) (s : Store) (program : String) (args : List String) :
    Except FileFault (Store × Shell.Step Unit) :=
  if (program :: args).any fun a => a.toList.contains (Char.ofNat 0) then
    .error (.other "nul byte found in provided data")
  else
    match s.locate true r.directory with
    | .error e => .error e
    | .ok (.free ..) => .error .notFound
    | .ok (.at place .directory) =>
      let s := { s with cwd := place }
      match Shell.launch? program args with
      | some step => .ok (s, step)
      | none => .error (cause s program)
    | .ok (.at ..) => .error .notADirectory

/-- The session in which a program starts. -/
def session (r : Runner) (s : Store) : Shell.Session :=
  { store := s, bindings := [], arguments := ["sh"], depth := 0, status := 0, input := .text ""
    out := "", err := "", left := r.timeout.map (· * 1000) }

/-- The verdict on a program that ended with a status. -/
def ofStatus (line : String) (status : Int) : Except RunFault Unit :=
  if status = 0 then .ok () else .error (.nonZeroExit line status)

/-- Runs the command for a test and its source. -/
def run (r : Runner) (test source : Path) (s : Store) : Store × Except RunFault Unit :=
  let args := arguments r.command r.directory test source
  let line := String.intercalate " " args
  match args with
  | [] => (s, .error .emptyCommand)
  | program :: rest =>
    match r.prepare s program rest with
    | .error e => (s, .error (.spawn line e))
    | .ok (store, step) =>
      if r.timeout = some 0 then (s, .error (.timedOut line 0))
      else
        let (result, session) := (step.run).run (r.session store)
        let result := match result with
          | .ok () => ofStatus line session.status
          | .error (.exit status) => ofStatus line status
          | .error .killed => .error (.nonZeroExit line (-1))
          | .error .outOfTime => .error (.timedOut line (r.timeout.getD 0))
        ({ session.store with cwd := s.cwd }, result)

end Runner

/-- The tools that settings describe; they remember nothing. -/
def Tools.ofConfig (c : Config.Coverage) (root : Path) : Tools Unit :=
  let summary := SummaryFile.ofConfig c root
  let runner := Runner.ofConfig c root
  { reset := fun s _ => let (s, r) := summary.reset s; (s, (), r)
    run := fun test source s _ => let (s, r) := runner.run test source s; (s, (), r)
    measure := fun source s _ => (s, (), summary.lineCoverage s source)
    threshold := c.effectiveThreshold }

end Trellis.Coverage
