import Interpose.Files.Tree
import Interpose.Loader.Catalog
import Interpose.Main
import Interpose.Proofs.Accounting
import Interpose.Proofs.Application
import Interpose.Proofs.Calendar
import Interpose.Proofs.Callers
import Interpose.Proofs.Classification
import Interpose.Proofs.Conservation
import Interpose.Proofs.Encoding
import Interpose.Proofs.Fallback
import Interpose.Proofs.Framing
import Interpose.Proofs.Grammar
import Interpose.Proofs.Handles
import Interpose.Proofs.History
import Interpose.Proofs.HooksOnce
import Interpose.Proofs.Impacts
import Interpose.Proofs.Initialization
import Interpose.Proofs.Interleaving
import Interpose.Proofs.Layout
import Interpose.Proofs.Ledger
import Interpose.Proofs.Lifecycle
import Interpose.Proofs.Lines
import Interpose.Proofs.Loading
import Interpose.Proofs.Normalization
import Interpose.Proofs.Observation
import Interpose.Proofs.Openings
import Interpose.Proofs.ParsedLines
import Interpose.Proofs.Prediction
import Interpose.Proofs.ProbeLog
import Interpose.Proofs.ProbeReport
import Interpose.Proofs.Records
import Interpose.Proofs.Reporting
import Interpose.Proofs.Scalars
import Interpose.Proofs.Schema
import Interpose.Proofs.SettledOnce
import Interpose.Proofs.Stems
import Interpose.Proofs.Strictness
import Interpose.Proofs.Switching
import Interpose.Proofs.Timestamps
import Interpose.Proofs.Traces
import Interpose.Proofs.Truncation
import Interpose.Proofs.Unloading
import Interpose.Proofs.Values
import Interpose.Sample
