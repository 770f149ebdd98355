import Trellis.Config.Validation

/-! # Layers of settings

Settings come from several places. Each is a layer, and a higher layer wins wherever it sets
something: the command line over the environment, the environment over the project's file, the
project's file over the user's file.

* `Config.merge` lays one config over another, setting by setting.
* `Config.ofEnvironment` reads the layer of environment variables; one that does not parse sets
  nothing.
* `Overrides.layer` is the layer of the command line. -/

namespace Trellis.Config

open Decimal (Binary)

/-- The value of the higher layer, if it sets one. -/
def pick {α : Type} (low high : Option α) : Option α := high.orElse fun _ => low

/-- The list of the higher layer, if it sets one. -/
def pickList (low high : List String) : List String := if high.isEmpty then low else high

/-- Lays the section `high` over the section `low`. -/
def Scan.merge (low high : Scan) : Scan :=
  { maxFileSize := pick low.maxFileSize high.maxFileSize
    includes := pickList low.includes high.includes
    extraIgnore := pickList low.extraIgnore high.extraIgnore
    followSymlinks := pick low.followSymlinks high.followSymlinks
    extensions := pickList low.extensions high.extensions
    testDirNames := pickList low.testDirNames high.testDirNames
    testFileMarkers := pickList low.testFileMarkers high.testFileMarkers }

/-- Lays the section `high` over the section `low`. -/
def Generation.merge (low high : Generation) : Generation :=
  { framework := pick low.framework high.framework
    variants := pick low.variants high.variants
    maxButtons := pick low.maxButtons high.maxButtons
    maxInputs := pick low.maxInputs high.maxInputs
    testSuffix := pick low.testSuffix high.testSuffix
    testDirectory := pick low.testDirectory high.testDirectory
    renderModule := pick low.renderModule high.renderModule
    userEventModule := pick low.userEventModule high.userEventModule
    wrapperImport := pick low.wrapperImport high.wrapperImport
    wrapperName := pick low.wrapperName high.wrapperName }

/-- Lays the section `high` over the section `low`. -/
def Coverage.merge (low high : Coverage) : Coverage :=
  { enabled := pick low.enabled high.enabled
    threshold := pick low.threshold high.threshold
    command := pickList low.command high.command
    summaryPath := pick low.summaryPath high.summaryPath
    timeoutSeconds := pick low.timeoutSeconds high.timeoutSeconds
    inheritOutput := pick low.inheritOutput high.inheritOutput }

/-- Lays the config `high` over the config `low`. -/
def merge (low high : Config) : Config :=
  { scan := low.scan.merge high.scan
    generation := low.generation.merge high.generation
    coverage := low.coverage.merge high.coverage }

/-! ### The environment -/

/-- Environment variables by name. -/
abbrev Environment := List (String × String)

/-- The value of a variable. -/
def Environment.get? (env : Environment) (name : String) : Option String := env.lookup name

/-- The names of all variables that are looked at. -/
def Environment.names : List String :=
  ["HOME", "USERPROFILE", "SCAFFOLD_SCAN_MAX_FILE_SIZE", "SCAFFOLD_FRAMEWORK", "SCAFFOLD_VARIANTS",
    "SCAFFOLD_COVERAGE_ENABLED", "SCAFFOLD_COVERAGE_THRESHOLD", "SCAFFOLD_COVERAGE_TIMEOUT"]

/-- A natural number of 64 bits: digits, perhaps after a plus sign. -/
def readWord? (s : String) : Option Nat :=
  let ds := match s.toList with
    | '+' :: rest => rest
    | cs => cs
  if ds.isEmpty || !ds.all Char.isDigit then none
  else
    let n := Decimal.natOfDigits ds
    if n < Nat.pow 2 64 then some n else none

/-- A truth value: exactly `true` or `false`. -/
def readTruth? (s : String) : Option Bool :=
  if s = "true" then some true else if s = "false" then some false else none

/-- A number with or without point and exponent. -/
def readNumber? (s : String) : Option Binary := Binary.read? s.toList

/-- The layer of environment variables. -/
def ofEnvironment (env : Environment) : Config :=
  { scan := { Scan.empty with
      maxFileSize := (env.get? "SCAFFOLD_SCAN_MAX_FILE_SIZE").bind readWord? }
    generation := { Generation.empty with
      framework := (env.get? "SCAFFOLD_FRAMEWORK").bind Framework.ofName?
      variants := (env.get? "SCAFFOLD_VARIANTS").bind readTruth? }
    coverage := { Coverage.empty with
      enabled := (env.get? "SCAFFOLD_COVERAGE_ENABLED").bind readTruth?
      threshold := (env.get? "SCAFFOLD_COVERAGE_THRESHOLD").bind readNumber?
      timeoutSeconds := (env.get? "SCAFFOLD_COVERAGE_TIMEOUT").bind readWord? } }

/-! ### The command line -/

/-- What the command line says about settings. -/
structure Overrides where
  /-- A file to read in place of the project's file. -/
  configPath : Option Path
  /-- The test framework. -/
  framework : Option Framework
  /-- Whether boolean props get tests of their own. -/
  variants : Option Bool
  /-- Whether coverage is measured. -/
  coverageEnabled : Option Bool
  /-- The percentage below which a module is enriched. -/
  coverageThreshold : Option Binary
  deriving DecidableEq, Repr, Inhabited

/-- A command line that says nothing. -/
def Overrides.none : Overrides := ⟨.none, .none, .none, .none, .none⟩

/-- The layer of the command line. -/
def Overrides.layer (o : Overrides) : Config :=
  { scan := .empty
    generation := { Generation.empty with framework := o.framework, variants := o.variants }
    coverage := { Coverage.empty with
      enabled := o.coverageEnabled, threshold := o.coverageThreshold } }

/-- Lays the command line over a config. -/
def override (c : Config) (o : Overrides) : Config := c.merge o.layer

end Trellis.Config
