import MiniC.Outline
import MiniC.Main
import MiniC.Proofs.Parsed.RoundTrip
import MiniC.Proofs.Parsed.Typing
import MiniC.Proofs.Parsed.Scanning
import MiniC.Proofs.Parsed.Placed
import MiniC.Proofs.Parsed.Ends
import MiniC.Proofs.Parsed.Nesting
import MiniC.Proofs.Parsed.Returns
import MiniC.Proofs.Scope.History
import MiniC.Proofs.Resolve.Lexical
import MiniC.Proofs.Layout.Invariance
import MiniC.Proofs.Token.Tiling
import MiniC.Proofs.Diagnostic.Retained
import MiniC.Proofs.Stmt.Shaped
import MiniC.Proofs.Expr.Shaped
import MiniC.Proofs.Stmt.Strays
import MiniC.Proofs.Parsed.Shaped
import MiniC.Proofs.Expr.Marks
import MiniC.Proofs.Parser.Leads
import MiniC.Proofs.Expr.Contained
import MiniC.Proofs.Expr.Ascends
import MiniC.Proofs.Stmt.Ascends
import MiniC.Proofs.Stmt.Placeholders
import MiniC.Proofs.Parsed.Placeholders
import MiniC.Proofs.Parser.Skips
import MiniC.Proofs.Parser.Limited
import MiniC.Proofs.Syntax.Skips
import MiniC.Proofs.Syntax.Recovers
import MiniC.Proofs.Expr.Limited
import MiniC.Proofs.Decl.Limited
import MiniC.Proofs.Stmt.InStep
import MiniC.Proofs.Stmt.Limited
import MiniC.Proofs.Parsed.Recovery
import MiniC.Proofs.Token.Units
import MiniC.Proofs.Token.Literals
import MiniC.Proofs.Token.Joined
import MiniC.Proofs.Resolve.Globals
import MiniC.Proofs.Parsed.FirstDeclared
import MiniC.Proofs.Syntax.Course
import MiniC.Proofs.Syntax.Outlined
import MiniC.Proofs.Parser.Along
import MiniC.Proofs.Parser.Tracks
import MiniC.Proofs.Expr.Along
import MiniC.Proofs.Decl.Along
import MiniC.Proofs.Stmt.Along
import MiniC.Proofs.Parsed.Positions
import MiniC.Proofs.Source.Searched
import MiniC.Proofs.Parsed.OneLine
import MiniC.Proofs.Parsed.Counted
import MiniC.Proofs.Parsed.Visits
import MiniC.Proofs.Parsed.TypeNodes
