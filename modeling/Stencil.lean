import Stencil.Delimited.Printer
import Stencil.Delimited.Segment
import Stencil.Delimited.Template
import Stencil.Environment.Basic
import Stencil.Environment.Files
import Stencil.Environment.Name
import Stencil.Fault
import Stencil.Function
import Stencil.Html.Context
import Stencil.Html.Escape
import Stencil.Json.Basic
import Stencil.Json.Printer
import Stencil.Json.Reader
import Stencil.Log
import Stencil.Number.Binary64
import Stencil.Number.Decimal
import Stencil.Number.Layout
import Stencil.Number.Shortest
import Stencil.Outline.Line
import Stencil.Outline.Markup
import Stencil.Outline.Nesting
import Stencil.Outline.Printer
import Stencil.Outline.Tag
import Stencil.Outline.Template
import Stencil.Outline.Tree
import Stencil.Pipeline.Basic
import Stencil.Pipeline.Lexer
import Stencil.Pipeline.Literal
import Stencil.Pipeline.Parser
import Stencil.Pipeline.Printer
import Stencil.Pipeline.Token
import Stencil.Render.Basic
import Stencil.Render.Context
import Stencil.Render.Eval
import Stencil.Render.Output
import Stencil.Render.Scope
import Stencil.Render.State
import Stencil.Settings
import Stencil.Table
import Stencil.Template.Basic
import Stencil.Template.Builder
import Stencil.Text.Quoted
import Stencil.Text.Search
import Stencil.Text.Space
import Stencil.Text.Units
import Stencil.Text.Unprintable
import Stencil.Value.Access
import Stencil.Value.Basic
import Stencil.Value.Data
import Stencil.Value.Order
import Stencil.Value.Printer
import Stencil.Proofs.Render.Keeps
import Stencil.Proofs.Template.Sites
import Stencil.Proofs.Escape.Characters
import Stencil.Proofs.Escape.SafeText
import Stencil.Proofs.Render.Evaluation
import Stencil.Proofs.Escape.Confinement
import Stencil.Proofs.Render.Ignores
import Stencil.Proofs.Block.Refill
import Stencil.Proofs.Block.Gate
import Stencil.Proofs.Html.Marker
import Stencil.Proofs.Html.Pieces
import Stencil.Proofs.Html.Occurrence
import Stencil.Proofs.Delimited.Recording
import Stencil.Proofs.Render.Trail
import Stencil.Proofs.Delimited.Execution
import Stencil.Proofs.Text.Search
import Stencil.Proofs.Pipeline.Statement
import Stencil.Proofs.Delimited.RoundTrip
import Stencil.Proofs.Outline.Markup
import Stencil.Proofs.Template.Agreement
import Stencil.Proofs.Render.Control
import Stencil.Proofs.Render.Termination
import Stencil.Proofs.Block.FirstClaim
import Stencil.Proofs.Block.Inheritance
import Stencil.Proofs.Block.Capturing
import Stencil.Proofs.Environment.Registration
import Stencil.Proofs.Render.Layout
import Stencil.Proofs.Environment.Located
import Stencil.Proofs.Value.Order
import Stencil.Proofs.Environment.Session
import Stencil.Proofs.Outline.Continuation
import Stencil.Proofs.Outline.Brackets
import Stencil.Proofs.Outline.Refusals
import Stencil.Proofs.Outline.Verbatim
import Stencil.Proofs.Template.Chains
import Stencil.Proofs.Outline.Opening
import Stencil.Proofs.Outline.TagStatements
import Stencil.Proofs.Delimited.Division
import Stencil.Proofs.Pipeline.Padding
import Stencil.Proofs.Pipeline.Malformed
import Stencil.Proofs.Outline.Emission
import Stencil.Proofs.Delimited.Interpolated
import Stencil.Proofs.Outline.Strictness
import Stencil.Proofs.Template.Merged
import Stencil.Proofs.Delimited.Merged
import Stencil.Proofs.Environment.Merged
import Stencil.Proofs.Environment.Path
import Stencil.Proofs.Delimited.Definitions
import Stencil.Proofs.Pipeline.Tiling
import Stencil.Proofs.Pipeline.Integers
import Stencil.Proofs.Pipeline.Escapes
import Stencil.Proofs.Value.Comparison
import Stencil.Proofs.Escape.Entities
import Stencil.Proofs.Escape.Contexts
import Stencil.Proofs.Json.Grammar
import Stencil.Proofs.Json.Reading
import Stencil.Proofs.Number.Shortest
import Stencil.Proofs.Json.Numbers
import Stencil.Proofs.Json.Printing
import Stencil.Proofs.Escape.Lossless
import Stencil.Proofs.Function.ScriptLiteral
import Stencil.Proofs.Function.Query
import Stencil.Proofs.Render.Piped
import Stencil.Proofs.Render.Unrolled
import Stencil.Proofs.Block.Resolution
import Stencil.Proofs.Render.Frames
import Stencil.Proofs.Text.ByteOrder
import Stencil.Proofs.Value.Parts
import Stencil.Proofs.Value.Data
import Stencil.Proofs.Render.Backtrace
import Stencil.Proofs.Render.Blame
