import Trellis.Batch.Run
import Trellis.CommandLine.Command
import Trellis.Config.Load
import Trellis.Contract.Json
import Trellis.Json.Write

/-! # Carrying out commands

What a command prints, what it changes in the file store, and the status with which the program
ends.

* `Fault` is why a command is not carried out, or not with success. Its status is 2 only when no run
  is possible at all.
* `Command.runIn` carries out a command in its `Surroundings`, `Command.run` in those of a store that
  is not under version control. Reports are printed even when the run then counts as a failure.
* `status` is the status with which the program ends, also where the command line asks for no
  command. -/

namespace Trellis.CommandLine

open Config (Environment Overrides)

/-- Why a command fails. -/
inductive Fault where
  /-- The settings cannot be used. -/
  | config (e : ConfigFault)
  /-- No run is possible. -/
  | environment (e : EnvironmentFault)
  /-- The source cannot be analyzed. -/
  | load (e : LoadFault)
  /-- Version control cannot tell which sources changed. -/
  | versionControl (reason : String)
  /-- An argument has a value that it must not have. -/
  | invalidArgument (reason : String)
  /-- So many sources failed. -/
  | filesFailed (n : Nat)
  deriving DecidableEq, Repr

namespace Fault

/-- The wording of a fault. -/
def message : Fault → String
  | config e => e.message
  | environment e => e.message
  | load e => e.message
  | versionControl reason => "git error: " ++ reason
  | invalidArgument reason => "invalid argument: " ++ reason
  | filesFailed n => toString n ++ " file(s) failed"

/-- The status with which the program ends. -/
def exit : Fault → Nat
  | environment _ => 2
  | _ => 1

end Fault

/-- What a command finds outside of the file store. -/
structure Surroundings where
  /-- Whether every dialect can be read. -/
  grammars : Except EnvironmentFault Unit
  /-- The files that version control calls changed in the project at a root. -/
  changed : Path → Except String (List Path)

/-- Every dialect can be read, and nothing is under version control. -/
def Surroundings.plain : Surroundings where
  grammars := .ok ()
  changed root := .error
    ("could not find repository at '" ++ root.text ++ "'; class=Repository (6); code=NotFound (-3)")

/-- What came of a command. -/
structure Outcome where
  /-- The file store after it. -/
  store : Store
  /-- What was printed. -/
  output : String
  /-- Why it failed, if it did. -/
  fault : Option Fault

/-- The status with which the program ends. -/
def Outcome.exit (o : Outcome) : Nat := (o.fault.map Fault.exit).getD 0

namespace Generate

/-- The layer of settings that the command line is. -/
def overrides (g : Generate) : Except Fault Overrides := do
  let framework ←
    match g.framework with
    | none => pure none
    | some name =>
      match Framework.ofName? name with
      | some f => pure (some f)
      | none =>
        throw (.invalidArgument
          ("unknown framework '" ++ name ++ "' (expected jest or vitest)"))
  return {
    configPath := g.config
    framework := framework
    variants := if g.noVariants then some false else none
    coverageEnabled := g.coverage
    coverageThreshold := g.threshold }

/-- The root without links, if it leads anywhere. -/
def absoluteRoot (g : Generate) (s : Store) : Path := ((s.absolute g.root).toOption).getD g.root

/-- The run that is asked for. -/
def batch (g : Generate) (h : Surroundings) (s : Store) (env : Environment) :
    Except Fault (Batch Unit) := do
  let root := g.absoluteRoot s
  let config ← (Config.load s env root (← g.overrides)).mapError .config
  let b ← (Batch.ofConfig s config root).mapError .environment
  h.grammars.mapError .environment
  return { b with enriched := g.refine }

/-- The sources that are asked for; none when nothing changed. -/
def sources (g : Generate) (h : Surroundings) (s : Store) (b : Batch Unit) :
    Except Fault (List Path) :=
  if g.changed then do
    let changed ← (h.changed b.root).mapError .versionControl
    return if changed.isEmpty then [] else b.candidates s changed
  else .ok (b.candidates s g.paths)

/-- What is printed of a report. -/
def shown (g : Generate) (root : Path) (r : Batch.Report) : String :=
  if g.json then r.toJson.pretty ++ "\n" else r.summary root

/-- The fault of a run, if failed sources count. -/
def verdict (g : Generate) (r : Batch.Report) : Option Fault :=
  if g.failOnError && r.hasFailures then some (.filesFailed r.counts.failed) else none

/-- Generates modules for some sources. -/
def runOver (g : Generate) (s : Store) (b : Batch Unit) (paths : List Path) : Outcome :=
  let (progress, report) := b.run ⟨⟨s, (), []⟩, .empty⟩ paths
  ⟨progress.world.store, g.shown b.root report, g.verdict report⟩

/-- Generates modules. -/
def run (g : Generate) (h : Surroundings) (s : Store) (env : Environment) : Outcome :=
  match g.batch h s env with
  | .error e => ⟨s, "", some e⟩
  | .ok b =>
    match g.sources h s b with
    | .error e => ⟨s, "", some e⟩
    | .ok paths => g.runOver s b paths

end Generate

/-- Shows the contracts of a source. -/
def analyze (file : Path) (h : Surroundings) (s : Store) : Outcome :=
  match h.grammars, Source.loadComponent s file with
  | .error e, _ => ⟨s, "", some (.environment e)⟩
  | .ok _, .error e => ⟨s, "", some (.load e)⟩
  | .ok _, .ok source =>
    let components := Analysis.components s.modules source
    ⟨s, (Json.arr (components.map (·.toJson))).pretty ++ "\n", none⟩

/-- Carries out a command. -/
def Command.runIn (h : Surroundings) (s : Store) (env : Environment) : Command → Outcome
  | .generate g => g.run h s env
  | .analyze file => CommandLine.analyze file h s

/-- Carries out a command where nothing is under version control. -/
def Command.run (s : Store) (env : Environment) (c : Command) : Outcome := c.runIn .plain s env

/-- The status with which the program ends, for a command line that asks for no command or for what
came of its command. -/
def status : Except UsageFault Outcome → Nat
  | .error e => e.exit
  | .ok o => o.exit

end Trellis.CommandLine
