import LinProg.Scalar.Basic
import LinProg.Scalar.Binary64
import LinProg.Text.Blank
import LinProg.Text.Numeric
import LinProg.Failure
import LinProg.Problem.Relation
import LinProg.Problem.Toggle
import LinProg.Problem.Basic
import LinProg.Decimal.Expression
import LinProg.Table
import LinProg.Plane.Listing
import LinProg.Plane.Optimum
import LinProg.Plane.Region
import LinProg.Plane.Segment
import LinProg.Simplex.Listing
import LinProg.Solver.Basic
import LinProg.Decimal.Literal
import LinProg.Model.Scan
import LinProg.Model.Read
import LinProg.Model.Problem
import LinProg.Json.Read
import LinProg.Json.Write
import LinProg.Record.Json
import LinProg.Solver.Report
import LinProg.Model.Json
import LinProg.Service
import LinProg.Json.Float
import LinProg.Main
import LinProg.Proofs.Solver.Agreement
import LinProg.Proofs.Model.Grammar
import LinProg.Proofs.Model.Unambiguous
import LinProg.Proofs.Model.Lexemes
import LinProg.Proofs.Model.Parsing
import LinProg.Proofs.Model.Meaning
import LinProg.Proofs.Simplex.Bases
import LinProg.Proofs.Simplex.Cycling
import LinProg.Proofs.Solver.Termination
import LinProg.Proofs.Arrays.Access
import LinProg.Proofs.Arrays.Grid
import LinProg.Proofs.Simplex.Shape
import LinProg.Proofs.Arrays.Pivoting
import LinProg.Proofs.Arrays.Phases
import LinProg.Proofs.Arrays.Building
import LinProg.Proofs.Arrays.Text
import LinProg.Proofs.Arrays.Listing
import LinProg.Proofs.Arrays.Plane
import LinProg.Proofs.Arrays.Solving
import LinProg.Proofs.Solver.WellFormed
import LinProg.Proofs.Simplex.Truncation
import LinProg.Proofs.Solver.Limits
import LinProg.Proofs.Problem.Checking
import LinProg.Proofs.Problem.Names
import LinProg.Proofs.Solver.Names
import LinProg.Proofs.Model.Places
import LinProg.Proofs.Model.Breaks
import LinProg.Proofs.Model.Joining
import LinProg.Proofs.Model.Lookahead
import LinProg.Proofs.Model.Faults
import LinProg.Proofs.Model.Spans
import LinProg.Proofs.Model.Localization
import LinProg.Proofs.Problem.Mirror
import LinProg.Proofs.Solver.Mirror
import LinProg.Proofs.Model.Seams
import LinProg.Proofs.Model.Layout
import LinProg.Proofs.Model.Cursor
import LinProg.Proofs.Model.Lossless
import LinProg.Proofs.Model.Spelling
import LinProg.Proofs.Model.Restating
import LinProg.Proofs.Solver.Dispatch
import LinProg.Proofs.Simplex.Reached
import LinProg.Proofs.Simplex.Progress
import LinProg.Proofs.Model.Excerpts
import LinProg.Proofs.Plane.Rearranging
import LinProg.Proofs.Arrays.Standard
import LinProg.Proofs.Simplex.Artificials
import LinProg.Proofs.Simplex.Replay
import LinProg.Proofs.Solver.Signs
import LinProg.Proofs.Plane.Distinct
import LinProg.Proofs.Plane.Drawing
import LinProg.Proofs.Plane.Clipping
import LinProg.Proofs.Plane.Angles
import LinProg.Proofs.Plane.Polygon
import LinProg.Proofs.Model.Acceptance
import LinProg.Proofs.Record.RoundTrip
