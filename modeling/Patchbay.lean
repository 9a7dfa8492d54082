import Patchbay.Color
import Patchbay.Command.Run
import Patchbay.Document
import Patchbay.Editor.Session
import Patchbay.Fault
import Patchbay.Flow
import Patchbay.Graph.Connection
import Patchbay.Json.Printer
import Patchbay.Log
import Patchbay.Log.Setup
import Patchbay.Main
import Patchbay.Metrics
import Patchbay.Settings
import Patchbay.Settings.Override
import Patchbay.TypeTree.Binding
import Patchbay.Value.Literal
import Patchbay.Yaml.Reader
import Patchbay.Proofs.Table
import Patchbay.Proofs.TypeTree.Matching
import Patchbay.Proofs.Except
import Patchbay.Proofs.Text.Strip
import Patchbay.Proofs.TypeTree.Spelling
import Patchbay.Proofs.Graph.Decision
import Patchbay.Proofs.Editor.Step
import Patchbay.Proofs.Editor.Structure
import Patchbay.Proofs.TypeTree.Document
import Patchbay.Proofs.Flow.RoundTrip
import Patchbay.Proofs.Graph.Typing
import Patchbay.Proofs.Editor.Audit
import Patchbay.Proofs.TypeTree.Canonical
import Patchbay.Proofs.Editor.Reconnect
import Patchbay.Proofs.Editor.Exposure
import Patchbay.Proofs.Editor.Wiring
import Patchbay.Proofs.Flow.Stability
import Patchbay.Proofs.Flow.Faults
import Patchbay.Proofs.TypeTree.Wildcard
import Patchbay.Proofs.Editor.Commute
import Patchbay.Proofs.Editor.Effect
import Patchbay.Proofs.Editor.Confluence
import Patchbay.Proofs.TypeTree.Place
import Patchbay.Proofs.TypeTree.Obstacle
import Patchbay.Proofs.TypeTree.SyntaxFault
import Patchbay.Proofs.Graph.View
import Patchbay.Proofs.Editor.Numbering
import Patchbay.Proofs.Editor.Ledger
import Patchbay.Proofs.Path
import Patchbay.Proofs.Settings
import Patchbay.Proofs.Color
import Patchbay.Proofs.TypeTree.Block
import Patchbay.Proofs.Settings.Override
import Patchbay.Proofs.Metered
