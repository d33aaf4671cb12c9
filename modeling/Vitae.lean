import Vitae.Cursor
import Vitae.Markdown
import Vitae.Proofs.Instant.Written
import Vitae.Proofs.Literal.Quotes
import Vitae.Proofs.Outline.Forest
import Vitae.Proofs.Outline.Insertion
import Vitae.Proofs.Outline.Rendering
import Vitae.Proofs.Reader.Agreement
import Vitae.Proofs.Reader.Attainable
import Vitae.Proofs.Reader.Attempt
import Vitae.Proofs.Reader.Blank
import Vitae.Proofs.Reader.Builder
import Vitae.Proofs.Reader.Concatenation
import Vitae.Proofs.Reader.Construction
import Vitae.Proofs.Reader.Containment
import Vitae.Proofs.Reader.Course
import Vitae.Proofs.Reader.Ending
import Vitae.Proofs.Reader.Extension
import Vitae.Proofs.Reader.FailedImport
import Vitae.Proofs.Reader.Following
import Vitae.Proofs.Reader.Grammar
import Vitae.Proofs.Reader.Growth
import Vitae.Proofs.Reader.Idle
import Vitae.Proofs.Reader.Import
import Vitae.Proofs.Reader.Inlining
import Vitae.Proofs.Reader.Lookahead
import Vitae.Proofs.Reader.Passage
import Vitae.Proofs.Reader.Point
import Vitae.Proofs.Reader.Prose
import Vitae.Proofs.Reader.Statement
import Vitae.Proofs.Reader.Strictness
import Vitae.Proofs.Text.Cut
import Vitae.Proofs.Text.Trim
import Vitae.Proofs.Workbench.Forest
import Vitae.Proofs.Workbench.Item
import Vitae.Proofs.Workbench.Parents
import Vitae.Proofs.Workbench.Tree
import Vitae.Proofs.Writer.Context
import Vitae.Proofs.Writer.Forest
import Vitae.Proofs.Writer.Lines
import Vitae.Proofs.Writer.Literal
import Vitae.Proofs.Writer.RoundTrip
import Vitae.Proofs.Writer.Shape
import Vitae.Proofs.Writer.Statement
import Vitae.Reader.Document
import Vitae.Workbench
import Vitae.Proofs.Node.Shape
import Vitae.Proofs.Reader.Calls
import Vitae.Proofs.Import.Path
import Vitae.Proofs.Library.Disk
import Vitae.Proofs.Reader.Junk
import Vitae.Proofs.Reader.FileCycle
import Vitae.Proofs.Literal.Fields
import Vitae.Proofs.Reader.ClosingLine
import Vitae.Proofs.Instant.Token
import Vitae.Proofs.Import.Segments
import Vitae.Proofs.Import.Target
import Vitae.Proofs.Reader.Machine
import Vitae.Proofs.Reader.OwnName
import Vitae.Proofs.Reader.Turns
import Vitae.Proofs.Literal.Row
import Vitae.Proofs.Writer.Misfit
import Vitae.Proofs.Node.Payload
import Vitae.Proofs.Reader.DeadWord
