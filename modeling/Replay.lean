import Replay.Cache
import Replay.Cache.Call
import Replay.CommandLine.Command
import Replay.CommandLine.Help
import Replay.CommandLine.Reader
import Replay.CommandLine.Run
import Replay.Config.Basic
import Replay.Config.Load
import Replay.Decimal.Plain
import Replay.Decimal.Rounded
import Replay.Decimal.Shortest
import Replay.Digest
import Replay.Exchange
import Replay.Execution
import Replay.Fault
import Replay.Files.Basic
import Replay.Files.Tree
import Replay.Instant.Basic
import Replay.Instant.Reader
import Replay.Json.Basic
import Replay.Json.Printer
import Replay.Json.Reader
import Replay.Locator.Resolution
import Replay.Main
import Replay.Markdown
import Replay.Ordered
import Replay.Pool
import Replay.Proofs.Digest
import Replay.Proofs.Exchange
import Replay.Proofs.Instant.Calendar
import Replay.Proofs.Instant.Reading
import Replay.Proofs.Json.Reading
import Replay.Proofs.Json.Result
import Replay.Proofs.Locator.Path
import Replay.Proofs.Ordered
import Replay.Proofs.Pool.Contents
import Replay.Proofs.Pool.Restoration
import Replay.Proofs.Recovery.Codes
import Replay.Proofs.Recovery.Pass
import Replay.Proofs.Recovery.Readiness
import Replay.Proofs.Recovery.Severity
import Replay.Proofs.Recovery.Validity
import Replay.Proofs.Rect
import Replay.Proofs.Text.Reading
import Replay.Proofs.Validation.Share
import Replay.Proofs.Validation.Validity
import Replay.Proofs.Wire.Record
import Replay.Proofs.Wire.Script
import Replay.Proofs.Wire.Snapshot
import Replay.Proofs.XPath.Evaluation
import Replay.Proofs.XPath.Reading
import Replay.Proofs.XPath.Selection
import Replay.Proofs.Xml.Construction
import Replay.Proofs.Xml.Escaping
import Replay.Proofs.Xml.Lineage
import Replay.Proofs.Xml.Mending
import Replay.Proofs.Xml.Naming
import Replay.Proofs.Xml.Reference
import Replay.Proofs.Xml.Tree
import Replay.Recovery.Artifact
import Replay.Recovery.Basic
import Replay.Recovery.Chain
import Replay.Recovery.Engine
import Replay.Recovery.Source
import Replay.Recovery.Strategy
import Replay.Recovery.Synthetic
import Replay.Rect
import Replay.Script
import Replay.Sha256
import Replay.Snapshot
import Replay.Text.Basic
import Replay.Text.CharClass
import Replay.Text.Quoted
import Replay.Toml.Basic
import Replay.Toml.Reader
import Replay.Toml.Scalar
import Replay.Total
import Replay.Validation.Basic
import Replay.Validation.Script
import Replay.Validation.Snapshot
import Replay.Wire.Cache
import Replay.Wire.Config
import Replay.Wire.Record
import Replay.Wire.Recovery
import Replay.Wire.Resolution
import Replay.Wire.Script
import Replay.Wire.Snapshot
import Replay.Wire.Validation
import Replay.XPath.Basic
import Replay.XPath.Eval
import Replay.XPath.Reader
import Replay.Xml.Attribute
import Replay.Xml.Document
import Replay.Xml.Entity
import Replay.Xml.Markup
import Replay.Xml.Repair
import Replay.Xml.Rescale
import Replay.Proofs.Decimal.Rounded
import Replay.Proofs.Recovery.Accounting
import Replay.Proofs.Recovery.Trace
import Replay.Proofs.Recovery.Cancellation
import Replay.Proofs.Recovery.Origin
import Replay.Proofs.Pool.Transparency
import Replay.Proofs.Xml.Nesting
import Replay.Proofs.Xml.Preorder
import Replay.Proofs.Recovery.Adaptation
import Replay.Proofs.Xml.Rescale.Document
import Replay.Proofs.Cache.History
import Replay.Proofs.Recovery.Regeneration
import Replay.Proofs.Recovery.Artifact
import Replay.Proofs.Recovery.Coherence
import Replay.Proofs.XPath.Narrowing
import Replay.Proofs.XPath.Subset
import Replay.Proofs.XPath.Writing
import Replay.Proofs.Xml.Closing
import Replay.Proofs.Xml.Idempotence
import Replay.Proofs.Xml.Ampersands
import Replay.Proofs.Xml.Rescale.Shape
import Replay.Proofs.Locator.Refreshed
import Replay.Proofs.Recovery.Target
import Replay.Proofs.Pool.Idempotence
import Replay.Proofs.Pool.Bookkeeping
import Replay.Proofs.Validation.Findings
import Replay.Proofs.Recovery.Siblings
import Replay.Proofs.Recovery.Queries
import Replay.Proofs.Cache.Page
import Replay.Proofs.Recasing
