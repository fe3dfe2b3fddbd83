import DocMerge.Command.Execution
import DocMerge.Command.Options
import DocMerge.Command.Screen
import DocMerge.Command.Session
import DocMerge.Data.Json
import DocMerge.Data.Toml
import DocMerge.Data.Value
import DocMerge.Decimal.Notation
import DocMerge.Decimal.Shortest
import DocMerge.DocId.Bracket
import DocMerge.DocId.Canonical
import DocMerge.DocId.Key
import DocMerge.Docs.Content
import DocMerge.Docs.Entry
import DocMerge.Docs.Identifier
import DocMerge.Docs.Markdown
import DocMerge.Docs.Reading
import DocMerge.Docs.Sample
import DocMerge.Docs.Writing
import DocMerge.Fault
import DocMerge.Files.Batch
import DocMerge.Files.Path
import DocMerge.Files.Pattern
import DocMerge.Files.Project
import DocMerge.Files.Store
import DocMerge.Main
import DocMerge.Merge.Corpus
import DocMerge.Merge.Dirty
import DocMerge.Merge.Exceptions
import DocMerge.Merge.Fields
import DocMerge.Merge.InterfaceRemarks
import DocMerge.Merge.Label
import DocMerge.Merge.Outcome
import DocMerge.Merge.Pairing
import DocMerge.Merge.Policy
import DocMerge.Merge.Run
import DocMerge.Merge.SourceIndex
import DocMerge.Merge.Undocumented
import DocMerge.Message.Address
import DocMerge.Message.Catalogs
import DocMerge.Message.Layout
import DocMerge.Message.Notice
import DocMerge.Message.Record
import DocMerge.Message.Standard
import DocMerge.Message.Template
import DocMerge.Message.Wording
import DocMerge.Proofs.Composing
import DocMerge.Proofs.Entries
import DocMerge.Proofs.Exceptions
import DocMerge.Proofs.Fields
import DocMerge.Proofs.Idempotence
import DocMerge.Proofs.Independence
import DocMerge.Proofs.Indexing
import DocMerge.Proofs.Preservation
import DocMerge.Proofs.Remarks
import DocMerge.Proofs.Reporting
import DocMerge.Proofs.Runs
import DocMerge.Proofs.Scanning
import DocMerge.Proofs.SelfSimilarity
import DocMerge.Proofs.Settling
import DocMerge.Proofs.Tokens
import DocMerge.Proofs.Undocumented
import DocMerge.Proofs.Spelling
import DocMerge.Proofs.Stores
import DocMerge.Proofs.Saving
import DocMerge.Settings.Configuration
import DocMerge.Settings.Error
import DocMerge.Settings.ProjectSettings
import DocMerge.Similarity.Matching
import DocMerge.Similarity.Rounding
import DocMerge.Similarity.Score
import DocMerge.Similarity.Words
import DocMerge.Text.Blank
import DocMerge.Text.CodePoints
import DocMerge.Text.Digits
import DocMerge.Text.Integer
import DocMerge.Text.Lines
import DocMerge.Text.LowerCase
import DocMerge.Text.Printable
import DocMerge.Text.Quoted
import DocMerge.Text.Search
import DocMerge.Text.Word
import DocMerge.Xml.Adopt
import DocMerge.Xml.Characters
import DocMerge.Xml.Document
import DocMerge.Xml.DocumentType
import DocMerge.Xml.Encoding
import DocMerge.Xml.File
import DocMerge.Xml.Namespace
import DocMerge.Xml.Node
import DocMerge.Xml.Printer
import DocMerge.Xml.Style
import DocMerge.Xml.Token
import DocMerge.Xml.Tree
import DocMerge.Xml.Uri
import DocMerge.Proofs.Readers
import DocMerge.Proofs.Lexing
import DocMerge.Proofs.Tags
import DocMerge.Proofs.Trees
import DocMerge.Proofs.Styling
import DocMerge.Proofs.LineEnds
import DocMerge.Proofs.Prologs
import DocMerge.Proofs.RoundTrips
import DocMerge.Proofs.Squeezing
import DocMerge.Proofs.Markup
import DocMerge.Proofs.Rewriting
import DocMerge.Proofs.Projection
import DocMerge.Proofs.Unsaved
import DocMerge.Proofs.Words
import DocMerge.Proofs.Collisions
import DocMerge.Proofs.Passes
import DocMerge.Proofs.Unedited
import DocMerge.Proofs.Outcomes
import DocMerge.Proofs.Checks
import DocMerge.Proofs.Complaints
import DocMerge.Proofs.Blocks
import DocMerge.Proofs.Thresholds
import DocMerge.Proofs.Overwriting
import DocMerge.Proofs.Brackets
import DocMerge.Proofs.Signatures
import DocMerge.Proofs.SignatureKeys
import DocMerge.Proofs.Validity
import DocMerge.Proofs.Partition
import DocMerge.Proofs.Owners
import DocMerge.Proofs.Assemblies
import DocMerge.Proofs.NameBraces
import DocMerge.Proofs.Leftovers
import DocMerge.Proofs.Braces
import DocMerge.Proofs.Rereading
import DocMerge.Proofs.Fences
import DocMerge.Proofs.Paragraphs
import DocMerge.Proofs.SharedBlocks
import DocMerge.Proofs.Scores
import DocMerge.Proofs.ValidSettings
import DocMerge.Proofs.Namespaces
import DocMerge.Proofs.Moving
import DocMerge.Proofs.Resting
import DocMerge.Proofs.Rerendering
import DocMerge.Proofs.Lookups
import DocMerge.Proofs.Fuel
import DocMerge.Proofs.Restyling
import DocMerge.Proofs.Respacing
import DocMerge.Proofs.Templates
import DocMerge.Proofs.Wordings
import DocMerge.Proofs.DocumentTypes
import DocMerge.Proofs.Recoding
import DocMerge.Proofs.TypedFiles
import DocMerge.Proofs.GenericArguments
