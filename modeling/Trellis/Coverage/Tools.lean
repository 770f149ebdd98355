import Trellis.Coverage.Summary
import Trellis.Placement.Write

/-! # The tools of the coverage loop

What the loop works with: a tool that takes old readings away, one that runs a test, and one that
reads a figure.

* `Tools` leaves open what they do. Each gets the file store and the tools' own memory and may
  change both.
* `World` is what a run acts on, with the acts that were done so far, in order. -/

namespace Trellis.Coverage

open Decimal (Binary)

/-- Something that a run did. -/
inductive Act where
  /-- It had old readings taken away. -/
  | reset
  /-- It had a test run for a source. -/
  | ran (test source : Path)
  /-- It had the figure of a source read. -/
  | measured (source : Path)
  /-- It asked for the enriched module. -/
  | enriched
  /-- It wrote a text at a target, and this is what the store was like before. -/
  | wrote (target : Path) (text : String) (before : Store)
  deriving Repr

/-- What a run acts on. -/
structure World (μ : Type) where
  /-- The file store. -/
  store : Store
  /-- What the tools remember. -/
  memory : μ
  /-- What was done, in order. -/
  acts : List Act

/-- The tools of the loop. -/
structure Tools (μ : Type) where
  /-- Takes old readings away. -/
  reset : Store → μ → Store × μ × Except CoverageFault Unit
  /-- Runs a test for a source. -/
  run : (test source : Path) → Store → μ → Store × μ × Except RunFault Unit
  /-- Reads the figure of a source. -/
  measure : (source : Path) → Store → μ → Store × μ × Except CoverageFault Binary
  /-- The figure below which a module is enriched. -/
  threshold : Binary

namespace World

variable {μ : Type}

/-- Notes an act. -/
def note (w : World μ) (a : Act) : World μ := { w with acts := w.acts ++ [a] }

/-- Lets a tool act, and notes it. -/
def act {ε α : Type} (w : World μ) (a : Act) (tool : Store → μ → Store × μ × Except ε α) :
    World μ × Except ε α :=
  let (store, memory, result) := tool w.store w.memory
  (⟨store, memory, w.acts ++ [a]⟩, result)

/-- Writes a module, and notes it when that is done. -/
def write (w : World μ) (target : Path) (text : String) :
    World μ × Except WriteFault Placement :=
  match Placement.write w.store target text with
  | (store, .ok p) =>
    (⟨store, w.memory, w.acts ++ [.wrote target text w.store]⟩, .ok p)
  | (store, .error e) => ({ w with store := store }, .error e)

end World

end Trellis.Coverage
