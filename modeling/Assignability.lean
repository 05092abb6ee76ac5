import Assignability.Number.Binary64
import Assignability.Number.Shortest
import Assignability.Number.Reading
import Assignability.Number.Word
import Assignability.Text.Printable
import Assignability.Text.Quoted
import Assignability.Text.Name
import Assignability.Schema.Kind
import Assignability.Schema.Basic
import Assignability.Schema.Same
import Assignability.Schema.Key
import Assignability.Schema.Placement
import Assignability.Schema.Display
import Assignability.Fault
import Assignability.Scope
import Assignability.Template
import Assignability.Handler
import Assignability.Registry
import Assignability.Catalog
import Assignability.Settings
import Assignability.Engine.Goal
import Assignability.Engine.World
import Assignability.Engine.Visit
import Assignability.Assoc
import Assignability.Document.Entries
import Assignability.Document.Encode
import Assignability.Document.Decode
import Assignability.Sorting.Runs
import Assignability.Sorting.Merge
import Assignability.Json.Writer
import Assignability.Json.Reader
import Assignability.Traversal
import Assignability.Session
import Assignability.Proofs.Goals
import Assignability.Proofs.Likeness
import Assignability.Proofs.Rules
import Assignability.Proofs.Correspondence
import Assignability.Proofs.Preparation
import Assignability.Proofs.Remarking
import Assignability.Proofs.FixedPoint
import Assignability.Proofs.Marks
import Assignability.Proofs.Runs
import Assignability.Proofs.Decision
import Assignability.Proofs.Placement
import Assignability.Proofs.Memo
import Assignability.Proofs.Termination
import Assignability.Proofs.Data
import Assignability.Proofs.Soundness
import Assignability.Proofs.Consistency
import Assignability.Proofs.Reflexivity
import Assignability.Proofs.Narrowing
import Assignability.Proofs.Transitivity
import Assignability.Proofs.Declarations
import Assignability.Proofs.Documents
import Assignability.Proofs.RoundTrip
import Assignability.Proofs.Normalization
import Assignability.Proofs.JsonText
import Assignability.Proofs.Transcription
import Assignability.Proofs.Succession
import Assignability.Proofs.Chains
import Assignability.Proofs.Resolution
import Assignability.Proofs.Traversals
import Assignability.Proofs.Mirroring
import Assignability.Proofs.Copies
import Assignability.Proofs.Reordering
import Assignability.Proofs.Reentrance
import Assignability.Proofs.Histories
import Assignability.Proofs.Invocations
import Assignability.Proofs.Capture
import Assignability.Proofs.Bookkeeping
import Assignability.Proofs.Moments
import Assignability.Proofs.ScopeAgreement
import Assignability.Proofs.Fields
import Assignability.Proofs.Faults
import Assignability.Proofs.Writability
import Assignability.Proofs.Intersections
import Assignability.Proofs.Renumbering
import Assignability.Proofs.Assumptions
import Assignability.Proofs.Closure
import Assignability.Proofs.Affirmation
import Assignability.Proofs.Indexing
import Assignability.Proofs.Stripping
import Assignability.Proofs.Evaluation
import Assignability.Proofs.Agreement
import Assignability.Proofs.Economy
import Assignability.Proofs.Languages
import Assignability.Proofs.Expansion
import Assignability.Proofs.Regrouping
import Assignability.Proofs.Lockstep
