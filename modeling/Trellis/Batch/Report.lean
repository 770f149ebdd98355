import Trellis.Coverage.Report
import Trellis.Placement

/-! # Reports of a run

What became of each file of a run, in order, and the totals.

* `Outcome` has one case per ending; `failed` ones count as failures of the run.
* `Report.summary` is the report for readers, `Report.toJson` the one for programs. -/

namespace Trellis.Batch

/-- What became of one source. -/
inductive Outcome where
  /-- Its module was written. -/
  | generated (target : Path) (components : List String) (pass : Pass) (placement : Placement)
      (feedback : Option Coverage.Report)
  /-- A test written by hand stands at the target. -/
  | manualTest (target : Path)
  /-- It exports no component. -/
  | noComponents
  /-- It could not be read. -/
  | unreadable (code message : String)
  /-- Its module could not be written. -/
  | unwritable (target : Path) (code message : String)
  deriving DecidableEq, Repr

namespace Outcome

/-- The name of an outcome in reports. -/
def label : Outcome → String
  | generated .. => "generated"
  | manualTest _ => "skipped-existing-manual-test"
  | noComponents => "skipped-no-components"
  | unreadable .. => "failed-unreadable"
  | unwritable .. => "failed-write"

/-- Whether an outcome counts as a failure. -/
def isFailure : Outcome → Bool
  | unreadable .. | unwritable .. => true
  | _ => false

/-- Whether the module was enriched after a reading. -/
def isRefined : Outcome → Bool
  | generated _ _ _ _ (some feedback) => feedback.state = .refined
  | _ => false

/-- The members of an outcome as a value. -/
def members : Outcome → List (String × Json)
  | generated target components pass placement feedback =>
    [("target", .str target.text), ("components", .texts components), ("pass", .str pass.label),
      ("placement", .str placement.label),
      ("feedback", (feedback.map Coverage.Report.toJson).getD .null)]
  | manualTest target => [("target", .str target.text)]
  | noComponents => []
  | unreadable code message => [("code", .str code), ("message", .str message)]
  | unwritable target code message =>
    [("target", .str target.text), ("code", .str code), ("message", .str message)]

/-- An outcome as a value. -/
def toJson (o : Outcome) : Json := .obj (("outcome", .str o.label) :: o.members)

end Outcome

/-- A source and what became of it. -/
structure FileReport where
  /-- The source. -/
  source : Path
  /-- What became of it. -/
  outcome : Outcome
  deriving DecidableEq, Repr

/-- What became of all sources of a run, in order. -/
structure Report where
  /-- One report per source. -/
  files : List FileReport
  deriving DecidableEq, Repr

/-- How many sources ended in which way. -/
structure Counts where
  /-- Sources whose module was written. -/
  generated : Nat
  /-- Those of them whose module was enriched after a reading. -/
  refined : Nat
  /-- Sources with a test written by hand. -/
  manual : Nat
  /-- Sources without components. -/
  noComponents : Nat
  /-- Sources that failed. -/
  failed : Nat
  deriving DecidableEq, Repr

namespace Report

/-- The number of outcomes of some kind. -/
def count (r : Report) (p : Outcome → Bool) : Nat := (r.files.map (·.outcome)).countP p

/-- How many sources ended in which way. -/
def counts (r : Report) : Counts :=
  { generated := r.count (·.label = "generated")
    refined := r.count Outcome.isRefined
    manual := r.count (·.label = "skipped-existing-manual-test")
    noComponents := r.count (·.label = "skipped-no-components")
    failed := r.count Outcome.isFailure }

/-- Whether a source failed. -/
def hasFailures (r : Report) : Bool := r.files.any (·.outcome.isFailure)

/-- What became of a source. -/
def outcomeFor? (r : Report) (source : Path) : Option Outcome :=
  (r.files.find? (·.source.same source)).map (·.outcome)

/-- The report as a value. -/
def toJson (r : Report) : Json :=
  .obj [("files", .arr (r.files.map fun f =>
    .obj [("source", .str f.source.text), ("outcome", f.outcome.toJson)]))]

/-! ### The summary for readers -/

/-- The last figure of a coverage report. -/
def lastFigure (feedback : Option Coverage.Report) : Option Decimal.Binary :=
  feedback.bind fun f => f.refinedCoverage.orElse fun _ => f.initialCoverage

/-- The line of one source. -/
def line (root : Path) (f : FileReport) : String :=
  let shown (p : Path) := (p.relativeTo root).text
  match f.outcome with
  | .generated target components pass _ feedback =>
    "generated  " ++ shown f.source ++ " -> " ++ shown target ++ " [" ++
      String.intercalate ", " components ++ "] (pass " ++ toString pass.number ++
      (match lastFigure feedback with
      | some x => ", coverage " ++ x.fixed 1 ++ "%"
      | none => "") ++ ")"
  | .manualTest target =>
    "skipped    " ++ shown f.source ++ " (manual test " ++ shown target ++ ")"
  | .noComponents => "skipped    " ++ shown f.source ++ " (no components)"
  | .unreadable code message | .unwritable _ code message =>
    "failed     " ++ shown f.source ++ " " ++ reportText code message

/-- The line of the totals. -/
def totals (c : Counts) : String :=
  toString c.generated ++ " generated (" ++ toString c.refined ++ " refined), " ++
    toString c.manual ++ " skipped (manual test), " ++
    toString c.noComponents ++ " skipped (no components), " ++ toString c.failed ++ " failed"

/-- One line per source, then the totals. -/
def summary (r : Report) (root : Path) : String :=
  String.join (r.files.map fun f => line root f ++ "\n") ++ "\n" ++ totals r.counts ++ "\n"

end Report

end Trellis.Batch
