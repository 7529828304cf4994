import Conditions.Diagnostic
import Conditions.Grammar
import Conditions.Lexing.Basic
import Conditions.Lexing.Scanner
import Conditions.Location
import Conditions.Node.Visit
import Conditions.Parser.Trace
import Conditions.Proofs.Acceptance
import Conditions.Proofs.Budget
import Conditions.Proofs.Building
import Conditions.Proofs.Classification
import Conditions.Proofs.Derivation
import Conditions.Proofs.Describing
import Conditions.Proofs.Indices
import Conditions.Proofs.Language
import Conditions.Proofs.Layout
import Conditions.Proofs.Literals
import Conditions.Proofs.Locality
import Conditions.Proofs.Masking
import Conditions.Proofs.Pieces
import Conditions.Proofs.Positions
import Conditions.Proofs.Recognition
import Conditions.Proofs.Rounding
import Conditions.Proofs.SourceReading
import Conditions.Proofs.Spelling
import Conditions.Proofs.Tiling
import Conditions.Proofs.Values
import Conditions.Proofs.Writing
import Conditions.Reading
import Conditions.Text.Distance
import Conditions.Tree.Build
import Conditions.Workspace.Basic
import Conditions.Proofs.Similarity
import Conditions.Parser.Journal
import Conditions.Proofs.Tracing
import Conditions.Proofs.LateBinding
import Conditions.Proofs.Entries
import Conditions.Proofs.EditDistance
import Conditions.Proofs.Repetition
import Conditions.Proofs.Quotes
import Conditions.Proofs.Suggestions
import Conditions.Proofs.Faithfulness
import Conditions.Proofs.Courses
import Conditions.Proofs.Preorder
import Conditions.Proofs.Grouping
import Conditions.Proofs.Regrouping
import Conditions.Proofs.ParserCourses
