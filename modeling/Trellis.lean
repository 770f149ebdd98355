import Trellis.Main
import Trellis.Proofs.Batch.Agreement
import Trellis.Proofs.Batch.HandWritten
import Trellis.Proofs.Batch.Isolation
import Trellis.Proofs.Contract.Gating
import Trellis.Proofs.Coverage.EntryChoice
import Trellis.Proofs.Coverage.LoopStates
import Trellis.Proofs.Batch.Unrepeated
import Trellis.Proofs.Store.Passes
import Trellis.Proofs.Suite.Imports
import Trellis.Proofs.Suite.Stubs
import Trellis.Proofs.Placement.Aside
import Trellis.Proofs.Coverage.Stale
import Trellis.Proofs.Batch.Stale
import Trellis.Proofs.Contract.Resolution
import Trellis.Proofs.Contract.Nesting
import Trellis.Proofs.Contract.Plain
import Trellis.Proofs.Config.Layers
import Trellis.Proofs.Path.Components
import Trellis.Proofs.Scan.Selection
import Trellis.Proofs.Scan.Targets
import Trellis.Proofs.Suite.Blocks
import Trellis.Proofs.Contract.Counterparts
import Trellis.Proofs.CommandLine.Status
import Trellis.Proofs.Placement.LinkBack
import Trellis.Proofs.TypeText.Literals
import Trellis.Proofs.TypeText.Joined
import Trellis.Proofs.Contract.Defaults
import Trellis.Proofs.Contract.Comments
import Trellis.Proofs.Contract.Scanning
import Trellis.Proofs.Contract.ShownText
import Trellis.Proofs.Suite.Forced
import Trellis.Proofs.Suite.Gated
import Trellis.Proofs.Suite.Supplied
import Trellis.Proofs.Contract.Exported
import Trellis.Proofs.Selector.Derivation
import Trellis.Proofs.Contract.AliasChains
import Trellis.Proofs.Placement.Sought
import Trellis.Proofs.Syntax.Lexemes
import Trellis.Proofs.Syntax.TopLevel
import Trellis.Proofs.Source.Spelled
import Trellis.Proofs.Suite.Bindings
import Trellis.Proofs.Source.Transparent
import Trellis.Proofs.Scan.Walk
import Trellis.Proofs.Suite.Quotations
import Trellis.Proofs.Suite.WellNested
import Trellis.Proofs.Coverage.Arguments
import Trellis.Proofs.Config.Written
