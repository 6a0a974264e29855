import LoxLexer.Alphabetic
import LoxLexer.Binary64
import LoxLexer.Binary64.Nearest
import LoxLexer.Binary64.Shortest
import LoxLexer.Character
import LoxLexer.Command
import LoxLexer.ControlSequence
import LoxLexer.Cursor
import LoxLexer.Decimal
import LoxLexer.Diagnostics
import LoxLexer.Folder
import LoxLexer.Intervals
import LoxLexer.Invocation
import LoxLexer.Kind
import LoxLexer.LexError
import LoxLexer.Lexeme
import LoxLexer.LineIndex
import LoxLexer.Listing
import LoxLexer.Literal
import LoxLexer.Main
import LoxLexer.Mode
import LoxLexer.Piece
import LoxLexer.Position
import LoxLexer.Report
import LoxLexer.Scan
import LoxLexer.Session
import LoxLexer.Shift
import LoxLexer.Token
import LoxLexer.Proofs.CutOff
import LoxLexer.Proofs.Denotation
import LoxLexer.Proofs.MaximalMunch
import LoxLexer.Proofs.Slice
import LoxLexer.Proofs.Tiling
import LoxLexer.Proofs.Gluing
import LoxLexer.Proofs.Runs
import LoxLexer.Proofs.ModeErrors
import LoxLexer.Proofs.Boundary
import LoxLexer.Proofs.LineNumbers
import LoxLexer.Proofs.LookAhead
import LoxLexer.Proofs.InputLines
import LoxLexer.Proofs.LineByLine
import LoxLexer.Proofs.Decoding
import LoxLexer.Proofs.Sessions
import LoxLexer.Proofs.Spacing
import LoxLexer.Proofs.Insertion
import LoxLexer.Proofs.Placement
import LoxLexer.Proofs.Opacity
import LoxLexer.Proofs.LineEnds
import LoxLexer.Proofs.Reporting
import LoxLexer.Proofs.Isolation
import LoxLexer.Proofs.Rounding
import LoxLexer.Proofs.NearestValue
import LoxLexer.Proofs.ShortestDecimal
import LoxLexer.Proofs.NumberValues
import LoxLexer.Proofs.NumberTexts
import LoxLexer.Proofs.CursorMoves
import LoxLexer.Proofs.CursorSafety
import LoxLexer.Proofs.Lookups
