import ConcreteSyntax.Position
import ConcreteSyntax.Tree
import ConcreteSyntax.Tree.Preorder
import ConcreteSyntax.Tree.Record
import ConcreteSyntax.Node
import ConcreteSyntax.Node.Descendant
import ConcreteSyntax.Node.Expression
import ConcreteSyntax.Row
import ConcreteSyntax.Cursor
import ConcreteSyntax.ChildIterator
import ConcreteSyntax.Cursor.Count
import ConcreteSyntax.Sink
import ConcreteSyntax.Sink.Emits
import ConcreteSyntax.Json.Escape
import ConcreteSyntax.Json.Writer
import ConcreteSyntax.Json.Document
import ConcreteSyntax.Json.Reader
import ConcreteSyntax.Json.Notation
import ConcreteSyntax.Json.Standard
import ConcreteSyntax.Json.Emits
import ConcreteSyntax.Json.Emits.Walk
import ConcreteSyntax.Grammar
import ConcreteSyntax.Event
import ConcreteSyntax.Session.Request
import ConcreteSyntax.Session.Answer
import ConcreteSyntax.Session
import ConcreteSyntax.Proofs.Reading
import ConcreteSyntax.Proofs.Rendering
import ConcreteSyntax.Proofs.Keys
import ConcreteSyntax.Proofs.Dump
import ConcreteSyntax.Proofs.Search
import ConcreteSyntax.Proofs.Children
import ConcreteSyntax.Proofs.Pass
import ConcreteSyntax.Proofs.Drain
import ConcreteSyntax.Proofs.NamedMoves
import ConcreteSyntax.Proofs.Retracing
import ConcreteSyntax.Proofs.Addresses
import ConcreteSyntax.Proofs.CursorRun
import ConcreteSyntax.Proofs.Confinement
import ConcreteSyntax.Proofs.Counting
import ConcreteSyntax.Proofs.Ranges
import ConcreteSyntax.Proofs.Layout
import ConcreteSyntax.Proofs.Relatives
import ConcreteSyntax.Proofs.Lookups
import ConcreteSyntax.Proofs.Edits
import ConcreteSyntax.Proofs.InnerEdits
import ConcreteSyntax.Proofs.Escaping
import ConcreteSyntax.Proofs.Characters
import ConcreteSyntax.Proofs.Strings
import ConcreteSyntax.Proofs.Validity
import ConcreteSyntax.Proofs.Spanning
import ConcreteSyntax.Proofs.Fields
import ConcreteSyntax.Proofs.Landings
import ConcreteSyntax.Proofs.FirstPast
import ConcreteSyntax.Proofs.PointRanges
import ConcreteSyntax.Proofs.FirstStep
import ConcreteSyntax.Proofs.Excerpts
import ConcreteSyntax.Proofs.Nesting
import ConcreteSyntax.Proofs.Tours
import ConcreteSyntax.Proofs.Clamping
