import ModelMint.Blueprint.Field
import ModelMint.Blueprint.Plan
import ModelMint.Blueprint.Rule
import ModelMint.Blueprint.Shared
import ModelMint.Blueprint.TypeName
import ModelMint.Command.Arguments
import ModelMint.Command.Request
import ModelMint.Command.Run
import ModelMint.Delivery
import ModelMint.Disk.Basic
import ModelMint.Disk.Draft
import ModelMint.Disk.Path
import ModelMint.Disk.Write
import ModelMint.Emit.ClassModule
import ModelMint.Emit.Text
import ModelMint.Entries
import ModelMint.Fault
import ModelMint.Instance.Action
import ModelMint.Instance.Check
import ModelMint.Instance.Compare
import ModelMint.Instance.Library
import ModelMint.Instance.Member
import ModelMint.Instance.Operators
import ModelMint.Instance.Refusal
import ModelMint.Instance.Run
import ModelMint.Instance.Shown
import ModelMint.Instance.Value
import ModelMint.Json.Basic
import ModelMint.Json.Reader
import ModelMint.Json.Shown
import ModelMint.Main
import ModelMint.Moment.Basic
import ModelMint.Moment.Reader
import ModelMint.Moment.Text
import ModelMint.Notice
import ModelMint.Number.Binary64
import ModelMint.Number.Shortest
import ModelMint.Package
import ModelMint.Package.Shared
import ModelMint.Proofs.Blueprint.Describing
import ModelMint.Proofs.Blueprint.Designation
import ModelMint.Proofs.Blueprint.DocumentedTypes
import ModelMint.Proofs.Blueprint.Likeness
import ModelMint.Proofs.Blueprint.NullFree
import ModelMint.Proofs.Blueprint.Planning
import ModelMint.Proofs.Blueprint.PropertyOrder
import ModelMint.Proofs.Blueprint.ReferenceTypes
import ModelMint.Proofs.Blueprint.Reordering
import ModelMint.Proofs.Blueprint.Retyping
import ModelMint.Proofs.Blueprint.Shared
import ModelMint.Proofs.Blueprint.Stopping
import ModelMint.Proofs.Blueprint.Wrapping
import ModelMint.Proofs.Command.RecordedLine
import ModelMint.Proofs.Delivery.Blocked
import ModelMint.Proofs.Delivery.Files
import ModelMint.Proofs.Delivery.Kept
import ModelMint.Proofs.Delivery.Loading
import ModelMint.Proofs.Delivery.SourceFiles
import ModelMint.Proofs.Delivery.Spared
import ModelMint.Proofs.Disk.Clearing
import ModelMint.Proofs.Disk.Drafts
import ModelMint.Proofs.Disk.Frame
import ModelMint.Proofs.Emit.Composing
import ModelMint.Proofs.Emit.Described
import ModelMint.Proofs.Emit.NullFree
import ModelMint.Proofs.Emit.Readable
import ModelMint.Proofs.Emit.StandardBase
import ModelMint.Proofs.Emit.Trees
import ModelMint.Proofs.Emit.Types
import ModelMint.Proofs.Emit.Untyped
import ModelMint.Proofs.Emit.Written
import ModelMint.Proofs.Entries
import ModelMint.Proofs.Instance.Acceptance
import ModelMint.Proofs.Instance.Beginning
import ModelMint.Proofs.Instance.Calls
import ModelMint.Proofs.Instance.Chain
import ModelMint.Proofs.Instance.Comparison
import ModelMint.Proofs.Instance.Conditions
import ModelMint.Proofs.Instance.Congruence
import ModelMint.Proofs.Instance.Constants
import ModelMint.Proofs.Instance.Elements
import ModelMint.Proofs.Instance.Equality
import ModelMint.Proofs.Instance.Exports
import ModelMint.Proofs.Instance.FieldMap
import ModelMint.Proofs.Instance.Keys
import ModelMint.Proofs.Instance.Keywords
import ModelMint.Proofs.Instance.Limits
import ModelMint.Proofs.Instance.Listed
import ModelMint.Proofs.Instance.Literal
import ModelMint.Proofs.Instance.Loading
import ModelMint.Proofs.Instance.Lookup
import ModelMint.Proofs.Instance.Namespaces
import ModelMint.Proofs.Instance.Numbers
import ModelMint.Proofs.Instance.Parts
import ModelMint.Proofs.Instance.Sameness
import ModelMint.Proofs.Instance.Setter
import ModelMint.Proofs.Instance.Settled
import ModelMint.Proofs.Instance.Start
import ModelMint.Proofs.Instance.Store
import ModelMint.Proofs.Instance.Success
import ModelMint.Proofs.Json.Complete
import ModelMint.Proofs.Json.Grammar
import ModelMint.Proofs.Json.WellFormed
import ModelMint.Proofs.Number.Rounding
import ModelMint.Proofs.Package.Agreement
import ModelMint.Proofs.Package.Attempt
import ModelMint.Proofs.Package.Dependencies
import ModelMint.Proofs.Package.Descriptions
import ModelMint.Proofs.Package.Files
import ModelMint.Proofs.Package.FirstFailure
import ModelMint.Proofs.Package.Layout
import ModelMint.Proofs.Package.Origin
import ModelMint.Proofs.Package.Parsing
import ModelMint.Proofs.Package.Partition
import ModelMint.Proofs.Package.Reordering
import ModelMint.Proofs.Package.Shared
import ModelMint.Proofs.Package.Sites
import ModelMint.Proofs.Package.TypeNames
import ModelMint.Proofs.Package.Validity
import ModelMint.Proofs.Results
import ModelMint.Proofs.Schema.Agreement
import ModelMint.Proofs.Schema.Attribution
import ModelMint.Proofs.Schema.Describing
import ModelMint.Proofs.Schema.NullFree
import ModelMint.Proofs.Schema.Paths
import ModelMint.Proofs.Schema.Reading
import ModelMint.Proofs.Schema.Reordering
import ModelMint.Proofs.Schema.Retyping
import ModelMint.Proofs.Schema.Rewriting
import ModelMint.Proofs.Schema.Sites
import ModelMint.Proofs.Settings.Names
import ModelMint.Proofs.Settings.RoundTrip
import ModelMint.Proofs.Source.Decimals
import ModelMint.Proofs.Source.Erasure
import ModelMint.Proofs.Source.Evaluation
import ModelMint.Proofs.Source.Lines
import ModelMint.Proofs.Source.Literals
import ModelMint.Proofs.Source.Numbers
import ModelMint.Proofs.Source.Pieces
import ModelMint.Proofs.Source.Quotations
import ModelMint.Proofs.Source.Reading
import ModelMint.Proofs.Source.Rows
import ModelMint.Proofs.Source.Scanning
import ModelMint.Proofs.Source.Trees
import ModelMint.Proofs.Source.Written
import ModelMint.Proofs.Text.AttributeForm
import ModelMint.Proofs.Text.AttributeNames
import ModelMint.Proofs.Text.FirstCharacters
import ModelMint.Proofs.Text.Layout
import ModelMint.Proofs.Text.NullFree
import ModelMint.Proofs.Text.PlainNames
import ModelMint.Proofs.Text.Underscores
import ModelMint.Proofs.Text.Visible
import ModelMint.Proofs.Text.Wrapped
import ModelMint.Schema.Document
import ModelMint.Schema.Failure
import ModelMint.Schema.Pointer
import ModelMint.Schema.Property
import ModelMint.Schema.Resolver
import ModelMint.Settings.BaseNames
import ModelMint.Settings.Basic
import ModelMint.Source.Expression
import ModelMint.Source.Form
import ModelMint.Source.Formatted
import ModelMint.Source.Literal
import ModelMint.Source.Number
import ModelMint.Source.Pattern
import ModelMint.Source.Quotation
import ModelMint.Source.Scan
import ModelMint.Source.Statement
import ModelMint.Source.Token
import ModelMint.Source.Validity
import ModelMint.Text.Identifier
import ModelMint.Text.Lines
import ModelMint.Text.Naming
import ModelMint.Text.Printable
import ModelMint.Text.Quoted
import ModelMint.Text.Wrap
