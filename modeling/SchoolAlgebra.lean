import SchoolAlgebra.Editor.Workspace
import SchoolAlgebra.Expr.Source
import SchoolAlgebra.Main
import SchoolAlgebra.Token.Class
import SchoolAlgebra.Worksheet
import SchoolAlgebra.Proofs.Binary64.SameValue
import SchoolAlgebra.Proofs.Expr.Bare
import SchoolAlgebra.Proofs.Grammar.Parsing
import SchoolAlgebra.Proofs.Expr.SimplifyMeaning
import SchoolAlgebra.Proofs.Binary64.Rounding
import SchoolAlgebra.Proofs.Cli.Excerpts
import SchoolAlgebra.Proofs.Cli.JsonReport
import SchoolAlgebra.Proofs.Cli.Runs
import SchoolAlgebra.Proofs.Cli.ValueReport
import SchoolAlgebra.Proofs.Decimal.Hundredths
import SchoolAlgebra.Proofs.Editor.Finding
import SchoolAlgebra.Proofs.Editor.Line
import SchoolAlgebra.Proofs.Editor.Publishing
import SchoolAlgebra.Proofs.Expr.Derivation
import SchoolAlgebra.Proofs.Expr.Exact
import SchoolAlgebra.Proofs.Expr.Excerpt
import SchoolAlgebra.Proofs.Expr.FirstError
import SchoolAlgebra.Proofs.Expr.FixedPoint
import SchoolAlgebra.Proofs.Expr.Layout
import SchoolAlgebra.Proofs.Expr.Misreading
import SchoolAlgebra.Proofs.Expr.Nesting
import SchoolAlgebra.Proofs.Expr.Outline
import SchoolAlgebra.Proofs.Expr.Parentheses
import SchoolAlgebra.Proofs.Expr.RoundTrip
import SchoolAlgebra.Proofs.Expr.SimplifyConstant
import SchoolAlgebra.Proofs.Expr.SimplifyPlaces
import SchoolAlgebra.Proofs.Expr.SimplifyReduced
import SchoolAlgebra.Proofs.Grammar.DescentAnswer
import SchoolAlgebra.Proofs.Hint.FactorReport
import SchoolAlgebra.Proofs.Hint.Fractions
import SchoolAlgebra.Proofs.Hint.Highlights
import SchoolAlgebra.Proofs.Hint.Monomials
import SchoolAlgebra.Proofs.Hint.TermSigns
import SchoolAlgebra.Proofs.Text.Report
import SchoolAlgebra.Proofs.Token.Cover
import SchoolAlgebra.Proofs.Token.Locality
import SchoolAlgebra.Proofs.Worksheet
