import LetLang.Command.Colour
import LetLang.Command.Help
import LetLang.Command.Options
import LetLang.Command.Run
import LetLang.Command.Transcript
import LetLang.Cut
import LetLang.Decimal
import LetLang.Diagnostic
import LetLang.Diagnostic.Report
import LetLang.Expr
import LetLang.Grammar
import LetLang.Grammar.Precedence
import LetLang.Main
import LetLang.Parse.Expr
import LetLang.Parse.Outcome
import LetLang.Parse.Program
import LetLang.Parse.Progress
import LetLang.Parse.Pull
import LetLang.Parse.Session
import LetLang.Parse.Stmt
import LetLang.Parse.Tables
import LetLang.Parse.Window
import LetLang.Source.Line
import LetLang.Source.Position
import LetLang.Stmt
import LetLang.Text.Blank
import LetLang.Text.Graphic
import LetLang.Text.Quoted
import LetLang.Text.Size
import LetLang.Token
import LetLang.Token.Cursor
import LetLang.Token.Kind
import LetLang.Token.Lexeme
import LetLang.Token.Reader
import LetLang.Proofs.Budget
import LetLang.Proofs.Grouping
import LetLang.Proofs.InOrder
import LetLang.Proofs.Flat
import LetLang.Proofs.Blocks
import LetLang.Proofs.Acceptance
import LetLang.Proofs.Relabel
import LetLang.Proofs.Shift
import LetLang.Proofs.Seam
import LetLang.Proofs.Barrier
import LetLang.Proofs.Segmentation
import LetLang.Proofs.Tiling
import LetLang.Proofs.Scan
import LetLang.Proofs.Stuck
import LetLang.Proofs.Spelling
import LetLang.Proofs.Pieces
import LetLang.Proofs.Earliest
import LetLang.Proofs.Lines
import LetLang.Proofs.Placement
import LetLang.Proofs.Reprint
import LetLang.Proofs.Reports
import LetLang.Proofs.Draws
import LetLang.Proofs.Ending
import LetLang.Proofs.Registration
import LetLang.Proofs.Pulling
import LetLang.Proofs.Walk
import LetLang.Proofs.Shell
import LetLang.Proofs.Listing
import LetLang.Proofs.LinearScan
import LetLang.Proofs.Reach
import LetLang.Proofs.Straddle
import LetLang.Proofs.LineMap
import LetLang.Proofs.Integers
import LetLang.Proofs.Readability
import LetLang.Proofs.Draining
import LetLang.Proofs.ReportSteps
import LetLang.Proofs.BlankLines
import LetLang.Proofs.Scanner
