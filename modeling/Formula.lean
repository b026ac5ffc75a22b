import Formula.Expr.Render
import Formula.Expr.Collect
import Formula.Expr.Visitor
import Formula.Log
import Formula.Proofs.Steps
import Formula.Proofs.Soundness
import Formula.Proofs.Completeness
import Formula.Proofs.Recognition
import Formula.Proofs.Scan
import Formula.Proofs.Height
import Formula.Proofs.Spell
import Formula.Proofs.Conversion
import Formula.Proofs.Parenthesis
import Formula.Proofs.Preorder
import Formula.Proofs.Substitute
import Formula.Proofs.Splice
import Formula.Proofs.Substitution
import Formula.Proofs.DecimalText
import Formula.Proofs.Display
import Formula.Proofs.Normal
import Formula.Proofs.RoundTrip
import Formula.Proofs.Spacing
import Formula.Proofs.GreatestHeight
import Formula.Proofs.Failure
import Formula.Proofs.Limit
import Formula.Proofs.Grouping
import Formula.Proofs.Advance
import Formula.Proofs.Completion
import Formula.Proofs.Parts
import Formula.Proofs.Postorder
import Formula.Proofs.Dialogue
import Formula.Proofs.Raise
import Formula.Proofs.Conduct
import Formula.Proofs.Calls
import Formula.Proofs.Diagnosis
import Formula.Proofs.Wording
import Formula.Proofs.Dependence
import Formula.Proofs.History
import Formula.Proofs.Movement
import Formula.Proofs.Blanks
import Formula.Proofs.Bytes
import Formula.Proofs.ByteLexer
import Formula.Proofs.ByteNumeral
import Formula.Proofs.ByteToken
import Formula.Proofs.Position
import Formula.Proofs.Marking
import Formula.Proofs.Unsigned
import Formula.Proofs.NormalForm
import Formula.Proofs.WellFormed
import Formula.Proofs.Readability
import Formula.Proofs.Traversal
import Formula.Proofs.Count
import Formula.Proofs.Quotation
import Formula.Proofs.DecimalValue
import Formula.Proofs.NumericLiteral
import Formula.Proofs.Exactness
import Formula.Proofs.ExponentForm
import Formula.Proofs.Strictness
import Formula.Proofs.StringNumber
import Formula.Proofs.WrittenType
import Formula.Proofs.Ambiguity
import Formula.Proofs.ReadBack
import Formula.Proofs.Comparison
import Formula.Proofs.Desugar
import Formula.Proofs.EqualTrees
import Formula.Proofs.FreeParameters
import Formula.Proofs.Verbatim
import Formula.Proofs.Progress
