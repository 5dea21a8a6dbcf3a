import Arbor.Text.Alphanumeric
import Arbor.Text.Blank
import Arbor.Text.Quoted
import Arbor.Text.Similarity
import Arbor.Text.Uppercase
import Arbor.Decimal.Layout
import Arbor.Decimal.Literal
import Arbor.Json.Printer
import Arbor.Json.Reader
import Arbor.Value
import Arbor.Selector.Printer
import Arbor.Selector.Parser
import Arbor.Selector.Cache
import Arbor.Catalogue.Draft
import Arbor.Catalogue.Reader
import Arbor.Catalogue.Estree
import Arbor.Tree.Basic
import Arbor.Tree.Error
import Arbor.Tree.List
import Arbor.Tree.InPlace
import Arbor.Tree.Traverse
import Arbor.Tree.Build
import Arbor.Tree.Operation
import Arbor.Query.Search
import Arbor.Command.Folder
import Arbor.Command.Run
import Arbor.Main
import Arbor.Proofs.Allocation
import Arbor.Proofs.Edit
import Arbor.Proofs.Ownership
import Arbor.Proofs.Acyclic
import Arbor.Proofs.Decompose
import Arbor.Proofs.Evolution
import Arbor.Proofs.Building
import Arbor.Proofs.SingleOwner
import Arbor.Proofs.Refusal
import Arbor.Proofs.Identity
import Arbor.Proofs.Conformance
import Arbor.Proofs.Candidates
import Arbor.Proofs.Walks
import Arbor.Proofs.Evaluation
import Arbor.Proofs.Reading
import Arbor.Proofs.Union
import Arbor.Proofs.Quoting
import Arbor.Proofs.WellRead
import Arbor.Proofs.Rereading
import Arbor.Proofs.RoundTrip
import Arbor.Proofs.Atomic
import Arbor.Proofs.Attach
import Arbor.Proofs.Compiled
import Arbor.Proofs.Records
import Arbor.Proofs.Remembered
import Arbor.Proofs.Copied
import Arbor.Proofs.Rebuilding
import Arbor.Proofs.Document
import Arbor.Proofs.Mirroring
import Arbor.Proofs.Grove
import Arbor.Proofs.Growing
import Arbor.Proofs.Acceptance
import Arbor.Proofs.Canonical
import Arbor.Proofs.Simulation
import Arbor.Proofs.Alike
import Arbor.Proofs.Structural
import Arbor.Proofs.Renumbering
import Arbor.Proofs.ByName
import Arbor.Proofs.Declared
import Arbor.Proofs.DeclarationOrder
import Arbor.Proofs.Metadata
import Arbor.Proofs.Rewriting
import Arbor.Proofs.Snapshot
import Arbor.Proofs.Transfer
import Arbor.Proofs.Splicing
import Arbor.Proofs.Assigning
import Arbor.Proofs.Inverse
import Arbor.Proofs.Testing
import Arbor.Proofs.Flattening
import Arbor.Proofs.Traversal
import Arbor.Proofs.DocumentOrder
import Arbor.Proofs.Roles
import Arbor.Proofs.Joining
import Arbor.Proofs.Upwards
import Arbor.Proofs.Inheritance
import Arbor.Proofs.Hierarchy
import Arbor.Proofs.WritingBack
import Arbor.Proofs.Numerals
