import BoundQuery.Placeholder
import BoundQuery.Text.Alphabet
import BoundQuery.Text.Blank
import BoundQuery.Text.Span
import BoundQuery.Dict
import BoundQuery.Calendar
import BoundQuery.Number.Binary64
import BoundQuery.Number.Decimal
import BoundQuery.Diagnostic
import BoundQuery.Json.Basic
import BoundQuery.Json.Reader
import BoundQuery.Json.Decode
import BoundQuery.Aggregate
import BoundQuery.Tree.Basic
import BoundQuery.Tree.Naming
import BoundQuery.Value.Document
import BoundQuery.Tree.Document
import BoundQuery.Alias
import BoundQuery.Bindings
import BoundQuery.Draft.Basic
import BoundQuery.Draft.Leaf
import BoundQuery.Draft.Snippet
import BoundQuery.Draft.Tree
import BoundQuery.Compile
import BoundQuery.Entity
import BoundQuery.Failure
import BoundQuery.Request
import BoundQuery.Bindings.Document
import BoundQuery.CommandLine
import BoundQuery.CommandLine.Task
import BoundQuery.Diagnostic.Document
import BoundQuery.Main
import BoundQuery.Proofs.Placeholder.Exchange
import BoundQuery.Proofs.Value
import BoundQuery.Proofs.Bindings
import BoundQuery.Proofs.Arguments
import BoundQuery.Proofs.Placeholder.Qualified
import BoundQuery.Proofs.Draft.Step
import BoundQuery.Proofs.Tree.Pieces
import BoundQuery.Proofs.Draft.Run
import BoundQuery.Proofs.Draft.Pushing
import BoundQuery.Proofs.Draft.Placed
import BoundQuery.Proofs.Draft.Bound
import BoundQuery.Proofs.Call
import BoundQuery.Proofs.Numbering
import BoundQuery.Proofs.Payload
import BoundQuery.Proofs.StyleAgreement
import BoundQuery.Proofs.Draft.Literal
import BoundQuery.Proofs.Placeholder.Counting
import BoundQuery.Proofs.Placeholder.Skeleton
import BoundQuery.Proofs.Tree.Separation
import BoundQuery.Proofs.Tree.Outline
import BoundQuery.Proofs.Tree.Elementary
import BoundQuery.Proofs.Update
import BoundQuery.Proofs.Dict
import BoundQuery.Proofs.Tree.Stops
import BoundQuery.Proofs.StyleFaults
import BoundQuery.Proofs.Resolution
import BoundQuery.Proofs.Shape
import BoundQuery.Proofs.Grouping
import BoundQuery.Proofs.Text.Digits
import BoundQuery.Proofs.Json.Spelling
import BoundQuery.Proofs.Json.Layout
import BoundQuery.Proofs.Json.Reading
import BoundQuery.Proofs.Json.Decoding
import BoundQuery.Proofs.Decimal
import BoundQuery.Proofs.Calendar
import BoundQuery.Proofs.Document.Value
import BoundQuery.Proofs.Document.Tree
import BoundQuery.Proofs.Document.Request
import BoundQuery.Proofs.AliasUnseen
import BoundQuery.Proofs.Draft.AppendOnly
import BoundQuery.Proofs.ArgumentsKept
import BoundQuery.Proofs.Tree.Plain
import BoundQuery.Proofs.Tree.Construction
import BoundQuery.Proofs.Tree.Builders
import BoundQuery.Proofs.BindingSeries
import BoundQuery.Proofs.HavingNumbers
import BoundQuery.Proofs.ExitCode
import BoundQuery.Proofs.Placeholder.Moving
import BoundQuery.Proofs.Relocation
import BoundQuery.Proofs.Text.Bytes
import BoundQuery.Proofs.Placeholder.Offsets
import BoundQuery.Proofs.Placeholder.Substitution
import BoundQuery.Proofs.SubNumbers
import BoundQuery.Proofs.HavingNames
import BoundQuery.Proofs.Refusal
import BoundQuery.Proofs.Placeholder.Joined
import BoundQuery.Proofs.NativeLiteral
import BoundQuery.Proofs.Alias.Matching
import BoundQuery.Proofs.Alias.Standard
import BoundQuery.Proofs.Alias.StandardPattern
import BoundQuery.Proofs.Alias.Reading
import BoundQuery.Proofs.Alias.Qualification
import BoundQuery.Proofs.Placeholder.Blank
import BoundQuery.Proofs.Statements
import BoundQuery.Proofs.SequenceAdvice
import BoundQuery.Proofs.ResultRows
import BoundQuery.Proofs.Placeholder.Seam
import BoundQuery.Proofs.TrailingClauses
import BoundQuery.Proofs.Tree.Glue
import BoundQuery.Proofs.Conjunctions
