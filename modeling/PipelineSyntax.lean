import PipelineSyntax.Token.Basic
import PipelineSyntax.Token.Stream
import PipelineSyntax.Token.Source
import PipelineSyntax.Token.Script
import PipelineSyntax.Token.Cursor
import PipelineSyntax.Token.Json
import PipelineSyntax.Text.Hidden
import PipelineSyntax.Text.Quoted
import PipelineSyntax.Text.Cut
import PipelineSyntax.Text.Slice
import PipelineSyntax.Json.Basic
import PipelineSyntax.Literal.Basic
import PipelineSyntax.Literal.SingleQuoted
import PipelineSyntax.Literal.DoubleQuoted
import PipelineSyntax.Literal.MachineWords
import PipelineSyntax.Literal.Decode
import PipelineSyntax.Abort
import PipelineSyntax.Diagnostic
import PipelineSyntax.Redirection.Direction
import PipelineSyntax.Redirection.Leader
import PipelineSyntax.Tree.Basic
import PipelineSyntax.Tree.Render
import PipelineSyntax.Tree.Json
import PipelineSyntax.Parser.Parsed
import PipelineSyntax.Parser.State
import PipelineSyntax.Parser.Step
import PipelineSyntax.Parser.Basic
import PipelineSyntax.Parser.Source
import PipelineSyntax.Parser.Descent
import PipelineSyntax.Proofs.Reading
import PipelineSyntax.Proofs.Sources
import PipelineSyntax.Proofs.Lines
import PipelineSyntax.Proofs.Viability
import PipelineSyntax.Proofs.Grammar
import PipelineSyntax.Proofs.Completeness
import PipelineSyntax.Proofs.Soundness
import PipelineSyntax.Proofs.Acceptance
import PipelineSyntax.Proofs.LeaderLanguage
import PipelineSyntax.Proofs.Leaders
import PipelineSyntax.Proofs.Spelling
import PipelineSyntax.Proofs.Positions
import PipelineSyntax.Proofs.Rebuilding
import PipelineSyntax.Proofs.Words
import PipelineSyntax.Proofs.Respelling
import PipelineSyntax.Proofs.Spaces
import PipelineSyntax.Proofs.Spending
import PipelineSyntax.Proofs.Weighing
import PipelineSyntax.Proofs.Tightness
import PipelineSyntax.Proofs.NormalForm
import PipelineSyntax.Proofs.Placement
import PipelineSyntax.Proofs.Causes
import PipelineSyntax.Proofs.CursorIndex
import PipelineSyntax.Proofs.Pushback
import PipelineSyntax.Proofs.DepthLimit
import PipelineSyntax.Proofs.DescentRules
import PipelineSyntax.Proofs.DescentAgrees
import PipelineSyntax.Proofs.Traces
import PipelineSyntax.Proofs.Conservation
import PipelineSyntax.Proofs.Segments
import PipelineSyntax.Proofs.Condensing
import PipelineSyntax.Proofs.Cuts
import PipelineSyntax.Proofs.Slices
import PipelineSyntax.Proofs.Addresses
import PipelineSyntax.Proofs.Carets
import PipelineSyntax.Proofs.Tiling
import PipelineSyntax.Proofs.Relocation
import PipelineSyntax.Proofs.Layouts
import PipelineSyntax.Proofs.Steering
import PipelineSyntax.Proofs.Strings
import PipelineSyntax.Proofs.Numbering
import PipelineSyntax.Proofs.Hints
import PipelineSyntax.Proofs.Openers
import PipelineSyntax.Proofs.Contexts
import PipelineSyntax.Proofs.Delimiters
import PipelineSyntax.Proofs.Doubling
import PipelineSyntax.Proofs.Numerals
import PipelineSyntax.Proofs.Escapes
import PipelineSyntax.Proofs.Escaping
import PipelineSyntax.Proofs.Shrinking
import PipelineSyntax.Proofs.MachineWords
import PipelineSyntax.Proofs.JsonTexts
import PipelineSyntax.Proofs.JsonTrees
