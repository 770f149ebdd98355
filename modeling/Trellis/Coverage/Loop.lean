import Trellis.Coverage.Report
import Trellis.Coverage.Tools

/-! # The coverage loop

Runs the test of one written module and enriches the module when the figure is too low.

* `Tools.figure` is one measurement: old readings are taken away, the test is run, the figure is
  read. The first failure ends it.
* `Tools.loop` measures, enriches the module if the figure lies below the threshold, and then
  measures once more. It never goes round again, and a failure is reported, not repeated. -/

namespace Trellis.Coverage

open Decimal (Binary)

namespace Tools

variable {μ : Type}

/-- One measurement. -/
def figure (t : Tools μ) (test source : Path) (w : World μ) : World μ × Except Failure Binary :=
  match w.act .reset t.reset with
  | (w, .error e) => (w, .error (.ofCoverage e))
  | (w, .ok ()) =>
    match w.act (.ran test source) (t.run test source) with
    | (w, .error e) => (w, .error (.ofRun e))
    | (w, .ok ()) =>
      match w.act (.measured source) (t.measure source) with
      | (w, .error e) => (w, .error (.ofCoverage e))
      | (w, .ok x) => (w, .ok x)

/-- The measurement after a module was enriched. -/
def refine (t : Tools μ) (test source : Path) (first : Binary) (w : World μ) :
    World μ × Report :=
  match t.figure test source w with
  | (w, .ok x) => (w, ⟨.refined, some first, some x, none⟩)
  | (w, .error e) => (w, ⟨.refined, some first, none, some e⟩)

/-- The loop for a source whose minimal module was written at `test`; `enriched` is the module to
put in its place. -/
def loop (t : Tools μ) (source test : Path) (enriched : String) (w : World μ) :
    World μ × Report :=
  match t.figure test source w with
  | (w, .error e) => (w, ⟨.initial, none, none, some e⟩)
  | (w, .ok first) =>
    if t.threshold.le first then (w, ⟨.initial, some first, none, none⟩)
    else
      match (w.note .enriched).write test enriched with
      | (w, .error e) => (w, ⟨.initial, some first, none, some (.ofWrite e)⟩)
      | (w, .ok _) => t.refine test source first w

end Tools

end Trellis.Coverage
