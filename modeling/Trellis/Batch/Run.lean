import Trellis.Batch.Report
import Trellis.Contract.Analysis
import Trellis.Coverage.Loop
import Trellis.Coverage.Runner
import Trellis.Scan.Walk
import Trellis.Source.Cache

/-! # Runs

One run over a project: every source is read, analyzed, and given its module, one after the other.

* A `Batch` is what a run goes by. `Batch.process` is what becomes of one source, `Batch.run` of
  many; what goes wrong with one source ends up in its report and does not stop the others.
* `Batch.ofConfig` sets up a run, which fails only if the root is no directory. -/

namespace Trellis

open Coverage (Tools World)

/-- What a run goes by. -/
structure Batch (μ : Type) where
  /-- The root of the project. -/
  root : Path
  /-- The settings. -/
  config : Config
  /-- The tools of the coverage loop, if modules are measured. -/
  tools : Option (Tools μ)
  /-- Whether modules are enriched from the start. -/
  enriched : Bool

namespace Batch

variable {μ : Type}

/-- What a run carries from one source to the next. -/
structure Progress (μ : Type) where
  /-- What the run acts on. -/
  world : World μ
  /-- The texts that were read. -/
  parsed : ParseCache

/-- The policy for targets. -/
def policy (b : Batch μ) : Placement.Policy := .ofConfig b.config.generation

/-- The pass that is written first. -/
def firstPass (b : Batch μ) : Pass := if b.enriched then .enriched else .minimal

/-- What the module of a source is generated for. -/
def suiteTarget (b : Batch μ) (p : Path) (source : Source) : Suite.Target :=
  ⟨p.fileName?.getD "", b.policy.importPath p, source.dialect.isTyped⟩

/-- The module of a source. -/
def suite (b : Batch μ) (p : Path) (source : Source) (components : List Component) (pass : Pass) :
    String :=
  Suite.text b.config.generation.suiteSettings (b.suiteTarget p source) pass components

/-- Reads a source. -/
def read (g : Progress μ) (p : Path) : Progress μ × Except LoadFault Source :=
  let (parsed, source) := g.parsed.loadComponent g.world.store p
  ({ g with parsed := parsed }, source)

/-- The components of a source, with the modules that it imports. -/
def analyze (g : Progress μ) (source : Source) : Progress μ × List Component :=
  let modules := g.world.store.modules
  let texts := (Analysis.lookups modules source).filterMap Lookup.parsed?
  ({ g with parsed := g.parsed.rememberAll texts }, Analysis.components modules source)

/-- What becomes of a source whose module could not be written. -/
def unwritten (target : Path) : WriteFault → Outcome
  | .manualTestPresent _ => .manualTest target
  | e => .unwritable target WriteFault.code e.message

/-- What becomes of a source whose module was written. -/
def measured (b : Batch μ) (w : World μ) (p target : Path) (enriched : String)
    (outcome : Pass → Option Coverage.Report → Outcome) : World μ × Outcome :=
  match b.tools, b.firstPass with
  | some tools, .minimal =>
    let (w, report) := tools.loop p target enriched w
    (w, outcome (if report.state = .refined then .enriched else .minimal) (some report))
  | _, pass => (w, outcome pass none)

/-- Writes the module of a source with components. -/
def place (b : Batch μ) (w : World μ) (p : Path) (source : Source) (components : List Component) :
    World μ × Outcome :=
  let target := b.policy.targetPath p
  match Placement.check w.store target with
  | .error e => (w, .unwritable target WriteFault.code e.message)
  | .ok .keep => (w, .manualTest target)
  | .ok _ =>
    match w.write target (b.suite p source components b.firstPass) with
    | (w, .error e) => (w, unwritten target e)
    | (w, .ok placement) =>
      b.measured w p target (b.suite p source components .enriched) fun pass feedback =>
        .generated target (components.map (·.name)) pass placement feedback

/-- What becomes of one source. -/
def process (b : Batch μ) (g : Progress μ) (p : Path) : Progress μ × Outcome :=
  match read g p with
  | (g, .error e) => (g, .unreadable LoadFault.code e.message)
  | (g, .ok source) =>
    match analyze g source with
    | (g, []) => (g, .noComponents)
    | (g, components) =>
      let (w, outcome) := b.place g.world p source components
      ({ g with world := w }, outcome)

/-- What becomes of sources, one after the other. -/
def processAll (b : Batch μ) : Progress μ → List Path → Progress μ × List FileReport
  | g, [] => (g, [])
  | g, p :: ps =>
    let (g, outcome) := b.process g p
    let (g, reports) := processAll b g ps
    (g, ⟨p, outcome⟩ :: reports)

/-- The run over some sources. -/
def run (b : Batch μ) (g : Progress μ) (paths : List Path) : Progress μ × Report :=
  let (g, reports) := b.processAll g paths
  (g, ⟨reports⟩)

/-- The sources that a run is about: those of a list, or all of the project when it is empty. -/
def candidates (b : Batch μ) (s : Store) (paths : List Path) : List Path :=
  if paths.isEmpty then s.candidates b.config.scan b.root
  else selectCandidates b.config.scan b.root paths

/-- A run of a project, with the tools that settings describe. -/
def ofConfig (s : Store) (c : Config) (root : Path) : Except EnvironmentFault (Batch Unit) :=
  if s.isDirectory root then
    .ok
      { root := root
        config := c
        tools := if c.coverage.effectiveEnabled then some (Tools.ofConfig c.coverage root) else none
        enriched := false }
  else .error (.rootUnavailable root.text "not a directory")

end Batch

end Trellis
