import SlangScript.Main
import SlangScript.TokenStream
import SlangScript.Proofs.Reading
import SlangScript.Proofs.ExpressionRules
import SlangScript.Proofs.StatementRules
import SlangScript.Proofs.ExpressionCompleteness
import SlangScript.Proofs.StatementCompleteness
import SlangScript.Proofs.Acceptance
import SlangScript.Proofs.Lookahead
import SlangScript.Proofs.EarliestError
import SlangScript.Proofs.Subtree
import SlangScript.Proofs.TreeAddresses
import SlangScript.Proofs.Unparse
import SlangScript.Proofs.RoundTrip
import SlangScript.Proofs.Spelling
import SlangScript.Proofs.Balance
import SlangScript.Proofs.Checked
import SlangScript.Proofs.Conformity
import SlangScript.Proofs.Headers
import SlangScript.Proofs.Tables
import SlangScript.Proofs.SourceOrder
import SlangScript.Proofs.LexemeRules
import SlangScript.Proofs.Segmentation
import SlangScript.Proofs.Positions
import SlangScript.Proofs.NestingCap
import SlangScript.Proofs.Heads
import SlangScript.Proofs.Preemption
import SlangScript.Proofs.BlockExtent
import SlangScript.Proofs.Numerals
import SlangScript.Proofs.ValidityRules
import SlangScript.Proofs.LineNumbers
import SlangScript.Proofs.LineBreaks
import SlangScript.Proofs.Concatenation
import SlangScript.Proofs.Cursor
import SlangScript.Proofs.CursorSteps
import SlangScript.Proofs.CursorExpressions
import SlangScript.Proofs.CursorStatements
import SlangScript.Proofs.CursorProgram
import SlangScript.Proofs.SingleError
import SlangScript.Proofs.Scripts
import SlangScript.Proofs.Progress
import SlangScript.Proofs.Activations
import SlangScript.Proofs.TreeShape
import SlangScript.Proofs.Faults
import SlangScript.Proofs.ErrorPlaces
import SlangScript.Proofs.Respelling
import SlangScript.Proofs.UnnamedTrees
import SlangScript.Proofs.LineWord
import SlangScript.Proofs.KeptStatements
import SlangScript.Proofs.FirstDefect
import SlangScript.Proofs.JoinedLexemes
import SlangScript.Proofs.RenderedTrees
import SlangScript.Proofs.Counterparts
import SlangScript.Proofs.UniformProductions
import SlangScript.Proofs.CheckedCounterparts
import SlangScript.Proofs.Layout
import SlangScript.Proofs.RightSides
import SlangScript.Proofs.CaretRow
import SlangScript.Proofs.CommandRuns
import SlangScript.Proofs.OpaqueTexts
import SlangScript.Proofs.BracedStatements
import SlangScript.Proofs.BraceCount
import SlangScript.Proofs.IndexedChecks
import SlangScript.Proofs.OperatorChains
import SlangScript.Proofs.ParameterLists
import SlangScript.Proofs.ParenthesisBalance
import SlangScript.Proofs.OpenLevels
import SlangScript.Proofs.NestingPlaces
