import Peg.Action.Script
import Peg.Grammar.Draft
import Peg.Grammar.Metrics
import Peg.Parse.Run
import Peg.Proofs.Action.MapStack
import Peg.Proofs.Events.Parses
import Peg.Proofs.Expr.SetAlgebra
import Peg.Proofs.Expr.SetNotation
import Peg.Proofs.Grammar.Calls
import Peg.Proofs.Grammar.LeastNullable
import Peg.Proofs.Grammar.LeftRecursion
import Peg.Proofs.Grammar.Spaces
import Peg.Proofs.Grammar.WrittenRanges
import Peg.Proofs.Memo.Outcomes
import Peg.Proofs.Parse.Bounds
import Peg.Proofs.Parse.Bracketing
import Peg.Proofs.Parse.Consuming
import Peg.Proofs.Parse.Labels
import Peg.Proofs.Parse.Lookahead
import Peg.Proofs.Parse.Nesting
import Peg.Proofs.Reference.Outcomes
import Peg.Proofs.Repair.Gaps
import Peg.Proofs.Repair.Rounds
import Peg.Proofs.Repair.SecondRound
import Peg.Proofs.Repair.Synthetic
import Peg.Proofs.Repair.Unrepaired
import Peg.Proofs.Report.Caret
import Peg.Proofs.Report.Misses
import Peg.Proofs.Report.Places
import Peg.Proofs.Text.IndentedLines
import Peg.Proofs.Text.LineTiling
import Peg.Proofs.Tree.Arrangement
import Peg.Proofs.Tree.Preorder
