import Trellis.Decimal.Digits
import Trellis.Fault
import Trellis.Json.Value

/-! # Reports of the coverage loop

What the coverage loop did with one file: where it stopped, the figures it read, and the failure
that stopped it. -/

namespace Trellis.Coverage

open Decimal (Binary)

/-- Where the loop stopped. -/
inductive LoopState where
  /-- The minimal module is final. -/
  | initial
  /-- The module was enriched. -/
  | refined
  deriving DecidableEq, Repr

/-- The step that failed. -/
inductive Stage where
  /-- Running the test. -/
  | runner
  /-- Reading the figure. -/
  | coverage
  /-- Writing the enriched module. -/
  | write
  deriving DecidableEq, Repr

/-- The name of a state in reports. -/
def LoopState.label : LoopState → String
  | initial => "initial"
  | refined => "refined"

/-- The name of a stage in reports. -/
def Stage.label : Stage → String
  | runner => "runner"
  | coverage => "coverage"
  | write => "write"

/-- A failure that stopped the loop. -/
structure Failure where
  /-- The step that failed. -/
  stage : Stage
  /-- The fault's code. -/
  code : String
  /-- The fault's wording. -/
  message : String
  deriving DecidableEq, Repr

namespace Failure

/-- The failure of a run. -/
def ofRun (e : RunFault) : Failure := ⟨.runner, RunFault.code, e.message⟩

/-- The failure of a reading. -/
def ofCoverage (e : CoverageFault) : Failure := ⟨.coverage, CoverageFault.code, e.message⟩

/-- The failure of a write. -/
def ofWrite (e : WriteFault) : Failure := ⟨.write, WriteFault.code, e.message⟩

/-- A failure as a value. -/
def toJson (f : Failure) : Json :=
  .obj [("stage", .str f.stage.label), ("code", .str f.code), ("message", .str f.message)]

end Failure

/-- What the loop did. -/
structure Report where
  /-- Where the loop stopped. -/
  state : LoopState
  /-- The figure of the minimal module. -/
  initialCoverage : Option Binary
  /-- The figure of the enriched module. -/
  refinedCoverage : Option Binary
  /-- What stopped the loop. -/
  failure : Option Failure
  deriving DecidableEq, Repr

namespace Report

/-- A figure as a value. -/
def figure : Option Binary → Json
  | some x => .real x
  | none => .null

/-- A report as a value. -/
def toJson (r : Report) : Json :=
  .obj [("state", .str r.state.label), ("initial_coverage", figure r.initialCoverage),
    ("refined_coverage", figure r.refinedCoverage),
    ("failure", (r.failure.map Failure.toJson).getD .null)]

end Report

end Trellis.Coverage
