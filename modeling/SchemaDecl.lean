import SchemaDecl.Binary64
import SchemaDecl.Coercion
import SchemaDecl.Command.Arguments
import SchemaDecl.Command.Run
import SchemaDecl.Compile
import SchemaDecl.Config
import SchemaDecl.Decimal
import SchemaDecl.Decimal.Leading
import SchemaDecl.Decimal.Shortest
import SchemaDecl.Declaration
import SchemaDecl.Directive
import SchemaDecl.FileTree.Basic
import SchemaDecl.FileTree.Path
import SchemaDecl.FileTree.Script
import SchemaDecl.Import
import SchemaDecl.Json.Decoder
import SchemaDecl.Json.Fault
import SchemaDecl.Json.Number
import SchemaDecl.Json.Print
import SchemaDecl.Json.Scan
import SchemaDecl.Json.Token
import SchemaDecl.Json.Value
import SchemaDecl.Load
import SchemaDecl.Main
import SchemaDecl.Output
import SchemaDecl.PathMap
import SchemaDecl.Proofs.Batch
import SchemaDecl.Proofs.BytePositions
import SchemaDecl.Proofs.ClassText
import SchemaDecl.Proofs.Closure
import SchemaDecl.Proofs.Containment
import SchemaDecl.Proofs.CutText
import SchemaDecl.Proofs.Digits
import SchemaDecl.Proofs.DirectiveText
import SchemaDecl.Proofs.EventOrder
import SchemaDecl.Proofs.FileLookup
import SchemaDecl.Proofs.Growth
import SchemaDecl.Proofs.Idempotence
import SchemaDecl.Proofs.Independence
import SchemaDecl.Proofs.MemberTypes
import SchemaDecl.Proofs.Messages
import SchemaDecl.Proofs.Modes
import SchemaDecl.Proofs.Numerals
import SchemaDecl.Proofs.Outcome
import SchemaDecl.Proofs.Reading
import SchemaDecl.Proofs.Representation
import SchemaDecl.Proofs.Rerun
import SchemaDecl.Proofs.Resolution
import SchemaDecl.Proofs.Retention
import SchemaDecl.Proofs.RoundTrip
import SchemaDecl.Proofs.Rounding
import SchemaDecl.Proofs.Saving
import SchemaDecl.Proofs.Scanning
import SchemaDecl.Proofs.Segments
import SchemaDecl.Proofs.Specifier
import SchemaDecl.Proofs.SpelledNumbers
import SchemaDecl.Proofs.Spelling
import SchemaDecl.Proofs.Stages
import SchemaDecl.Proofs.Streaming
import SchemaDecl.Proofs.TokenText
import SchemaDecl.Proofs.Traversal
import SchemaDecl.Proofs.Truncation
import SchemaDecl.Proofs.Written
import SchemaDecl.Reference
import SchemaDecl.Schema.Basic
import SchemaDecl.Schema.Printer
import SchemaDecl.Schema.Reader
import SchemaDecl.Schema.Tag
import SchemaDecl.Text.Blank
import SchemaDecl.Text.Edge
import SchemaDecl.Text.Hidden
import SchemaDecl.Text.Quoted
import SchemaDecl.Trace
import SchemaDecl.Writer
