import Wiring.Text.Blank
import Wiring.Text.Cut
import Wiring.Text.Lines
import Wiring.Text.Shown
import Wiring.Table
import Wiring.Address
import Wiring.TypeName
import Wiring.Model
import Wiring.Model.Lookup
import Wiring.Script.Parse
import Wiring.Script.Check
import Wiring.Component.Defaults
import Wiring.Component.Draft
import Wiring.Synthesis
import Wiring.Event.Bus
import Wiring.Linker.Run
import Wiring.Json.Pretty
import Wiring.Json.Read
import Wiring.Instant
import Wiring.Uuid
import Wiring.Model.Document
import Wiring.Component.Document
import Wiring.Settings.Document
import Wiring.Address.Document
import Wiring.Requester
import Wiring.Event.Document
import Wiring.Settings.Yaml
import Wiring.Files.Memory
import Wiring.Spool
import Wiring.Linker.Serve
import Wiring.CommandLine.Program
import Wiring.Main
import Wiring.Proofs.Script.Word
import Wiring.Proofs.Script.Scanning
import Wiring.Proofs.Script.Reading
import Wiring.Proofs.Script.Expressible
import Wiring.Proofs.Script.Line
import Wiring.Proofs.Script.RoundTrip
import Wiring.Proofs.Binding.Grammar
import Wiring.Proofs.Binding.Safe
import Wiring.Proofs.Linker.Channels
import Wiring.Proofs.Linker.Components
import Wiring.Proofs.Script.Execution
import Wiring.Proofs.Synthesis.Connections
import Wiring.Proofs.Synthesis.Checked
import Wiring.Proofs.Script.Reorder
import Wiring.Proofs.Synthesis.Deferred
import Wiring.Proofs.Linker.Terminal
import Wiring.Proofs.Linker.InTurn
import Wiring.Proofs.Linker.Progress
import Wiring.Proofs.Linker.Alone
import Wiring.Proofs.Synthesis.Started
import Wiring.Proofs.Linker.Idempotent
import Wiring.Proofs.Linker.Undone
import Wiring.Proofs.Script.LeastOrder
import Wiring.Proofs.Script.Overtaking
import Wiring.Proofs.Script.Unbroken
import Wiring.Proofs.Model.Removed
import Wiring.Proofs.Synthesis.Removal
import Wiring.Proofs.Synthesis.Unbroken
import Wiring.Proofs.Synthesis.ReadBack
import Wiring.Proofs.Linker.StoppedByType
import Wiring.Proofs.Address.Collisions
import Wiring.Proofs.Synthesis.Shape
import Wiring.Proofs.Binding.Joined
import Wiring.Proofs.Binding.Filling
import Wiring.Proofs.Component.FreeKeys
import Wiring.Proofs.Component.Drafted
import Wiring.Proofs.Settings
import Wiring.Proofs.Synthesis.Drafted
import Wiring.Proofs.Component.KeyOrder
import Wiring.Proofs.Synthesis.OwnPorts
import Wiring.Proofs.Linker.OwnPorts
import Wiring.Proofs.Component.Resolved
import Wiring.Proofs.Script.LineByLine
import Wiring.Proofs.Script.Layout
import Wiring.Proofs.Script.NamedFault
import Wiring.Proofs.Script.LineNumbers
import Wiring.Proofs.Linker.Planned
import Wiring.Proofs.Event.Account
import Wiring.Proofs.Model.Declared
import Wiring.Proofs.Synthesis.Versions
import Wiring.Proofs.Turns.Pruning
import Wiring.Proofs.Documents
