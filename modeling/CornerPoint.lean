import CornerPoint.Main
import CornerPoint.Editor.Diagnostic
import CornerPoint.Editor.Highlight
import CornerPoint.Editor.Solve
import CornerPoint.Proofs.Program.Solve
import CornerPoint.Proofs.Program.Optimality
import CornerPoint.Proofs.Compile.Meaning
import CornerPoint.Proofs.Compile.Catalog
import CornerPoint.Proofs.Program.Enumeration
import CornerPoint.Proofs.Plane.Angle
import CornerPoint.Proofs.Plane.Hull
import CornerPoint.Proofs.Plane.Boundary
import CornerPoint.Proofs.Source.Grammar
import CornerPoint.Proofs.Source.Reads
import CornerPoint.Proofs.Source.Expression
import CornerPoint.Proofs.Source.Advance
import CornerPoint.Proofs.Source.Declaration
import CornerPoint.Proofs.Source.Acceptance
import CornerPoint.Proofs.Source.Rejection
import CornerPoint.Proofs.Program.Conflict
import CornerPoint.Proofs.Source.Tiling
import CornerPoint.Proofs.Source.Lexing
import CornerPoint.Proofs.Source.Writing
import CornerPoint.Proofs.Number.Decimal
import CornerPoint.Proofs.Source.Canonical
import CornerPoint.Proofs.Source.Accepted
import CornerPoint.Proofs.Compile.Regrouping
import CornerPoint.Proofs.Editor.Diagnostic
import CornerPoint.Proofs.Program.Rearrangement
import CornerPoint.Proofs.Compile.Problem
import CornerPoint.Proofs.Compile.WellFormed
import CornerPoint.Proofs.Source.Cutting
import CornerPoint.Proofs.Compile.Printing
import CornerPoint.Proofs.Program.Mirror
import CornerPoint.Proofs.Program.Duality
import CornerPoint.Proofs.Compile.History
import CornerPoint.Proofs.Source.Relocation
import CornerPoint.Proofs.Source.Lines
import CornerPoint.Proofs.Program.LocalCause
import CornerPoint.Proofs.Program.Widening
import CornerPoint.Proofs.Source.Slicing
import CornerPoint.Proofs.Source.Layout
import CornerPoint.Proofs.Source.Placement
import CornerPoint.Proofs.Source.Keeping
import CornerPoint.Proofs.Plane.Distinct
import CornerPoint.Proofs.Plane.Sweep
import CornerPoint.Proofs.Plane.Sites
import CornerPoint.Proofs.Program.Analysis
import CornerPoint.Proofs.Source.Comments
import CornerPoint.Proofs.Source.Binding
import CornerPoint.Proofs.Source.Trailing
import CornerPoint.Proofs.Source.Pointing
import CornerPoint.Proofs.Compile.Degenerate
import CornerPoint.Proofs.Editor.Location
import CornerPoint.Proofs.Source.Literal
import CornerPoint.Proofs.Source.Standalone
import CornerPoint.Proofs.Descent.Agreement
