import Procedural.Datum
import Procedural.Decimal.Basic
import Procedural.Decimal.Binary64
import Procedural.Decimal.Quotient
import Procedural.Decimal.Text
import Procedural.Diagnostic.Position
import Procedural.Diagnostic.Report
import Procedural.Execution.Builtin
import Procedural.Execution.Expr
import Procedural.Execution.Fault
import Procedural.Execution.Machine
import Procedural.Execution.Operator
import Procedural.Execution.Program
import Procedural.Execution.Stmt
import Procedural.Layout.Canonical
import Procedural.Layout.Java
import Procedural.Layout.Line
import Procedural.Layout.Outline
import Procedural.Main
import Procedural.Options
import Procedural.Problem
import Procedural.Proofs.Decimal.Division
import Procedural.Proofs.Decimal.Normalization
import Procedural.Proofs.Decimal.Order
import Procedural.Proofs.Decimal.PlainText
import Procedural.Proofs.Decimal.Rounding
import Procedural.Proofs.Decimal.SignificantDigits
import Procedural.Proofs.Diagnostic.Position
import Procedural.Proofs.Diagnostic.Report
import Procedural.Proofs.Execution.Accord
import Procedural.Proofs.Execution.Assignment
import Procedural.Proofs.Execution.Balance
import Procedural.Proofs.Execution.Bare
import Procedural.Proofs.Execution.Chronicle
import Procedural.Proofs.Execution.Classes
import Procedural.Proofs.Execution.Comparison
import Procedural.Proofs.Execution.Defenses
import Procedural.Proofs.Execution.ElementTypes
import Procedural.Proofs.Execution.Erasure
import Procedural.Proofs.Execution.Isolation
import Procedural.Proofs.Execution.Limit
import Procedural.Proofs.Execution.Lists
import Procedural.Proofs.Execution.Logic
import Procedural.Proofs.Execution.Modest
import Procedural.Proofs.Execution.Names
import Procedural.Proofs.Execution.Output
import Procedural.Proofs.Execution.Places
import Procedural.Proofs.Execution.Reasons
import Procedural.Proofs.Execution.Relabelled
import Procedural.Proofs.Execution.Reordering
import Procedural.Proofs.Execution.Reuse
import Procedural.Proofs.Execution.Sanity
import Procedural.Proofs.Execution.Soundness
import Procedural.Proofs.Execution.Staging
import Procedural.Proofs.Execution.Still
import Procedural.Proofs.Execution.Termination
import Procedural.Proofs.Execution.TypedPrograms
import Procedural.Proofs.Execution.TypedRuns
import Procedural.Proofs.Execution.UnitProduct
import Procedural.Proofs.Execution.Unplaced
import Procedural.Proofs.Execution.Watched
import Procedural.Proofs.Layout.JavaGrouping
import Procedural.Proofs.Layout.JavaLexing
import Procedural.Proofs.Layout.JavaReading
import Procedural.Proofs.Layout.JavaText
import Procedural.Proofs.Layout.Legible
import Procedural.Proofs.Layout.LegibleStmt
import Procedural.Proofs.Layout.Reformatting
import Procedural.Proofs.Layout.Relabelled
import Procedural.Proofs.Layout.RoundTrip
import Procedural.Proofs.Layout.Unplaced
import Procedural.Proofs.Reader.Completeness
import Procedural.Proofs.Reader.Continuation
import Procedural.Proofs.Reader.Descent
import Procedural.Proofs.Reader.Exactness
import Procedural.Proofs.Reader.FromText
import Procedural.Proofs.Reader.Grammar
import Procedural.Proofs.Reader.Literals
import Procedural.Proofs.Reader.Lookahead
import Procedural.Proofs.Reader.Places
import Procedural.Proofs.Reader.Progress
import Procedural.Proofs.Reader.QuotedLiterals
import Procedural.Proofs.Reader.Rules
import Procedural.Proofs.Reader.Soundness
import Procedural.Proofs.Reader.Stumbling
import Procedural.Proofs.Reader.Termination
import Procedural.Proofs.Reader.Trees
import Procedural.Proofs.Reader.Unambiguity
import Procedural.Proofs.Scope.Arena
import Procedural.Proofs.Scope.Correspondence
import Procedural.Proofs.Scope.Equivalence
import Procedural.Proofs.Scope.Hidden
import Procedural.Proofs.Scope.Keeping
import Procedural.Proofs.Scope.Mapping
import Procedural.Proofs.Scope.Refinement
import Procedural.Proofs.Store.Acyclic
import Procedural.Proofs.Store.Change
import Procedural.Proofs.Store.Equality
import Procedural.Proofs.Syntax.Bare
import Procedural.Proofs.Syntax.Nodes
import Procedural.Proofs.Syntax.Parts
import Procedural.Proofs.Syntax.Relabelled
import Procedural.Proofs.Syntax.Settings
import Procedural.Proofs.Syntax.Unplaced
import Procedural.Proofs.Text.Numerals
import Procedural.Proofs.Text.QuotedText
import Procedural.Proofs.Token.Concatenation
import Procedural.Proofs.Token.Lexeme
import Procedural.Proofs.Token.LineBreaks
import Procedural.Proofs.Token.LongestMatch
import Procedural.Proofs.Token.Spacing
import Procedural.Proofs.Token.Tokenization
import Procedural.Proofs.Typing.Annotation
import Procedural.Proofs.Typing.Contexts
import Procedural.Proofs.Typing.Decision
import Procedural.Proofs.Typing.Derivation
import Procedural.Proofs.Typing.Exchange
import Procedural.Proofs.Typing.Faults
import Procedural.Proofs.Typing.FullAnnotation
import Procedural.Proofs.Typing.Hinges
import Procedural.Proofs.Typing.Idempotence
import Procedural.Proofs.Typing.Judgement
import Procedural.Proofs.Typing.ProgramDecision
import Procedural.Proofs.Typing.ProgramDerivation
import Procedural.Proofs.Typing.Reordering
import Procedural.Proofs.Typing.Rules
import Procedural.Proofs.Typing.Shapes
import Procedural.Proofs.Typing.Unplaced
import Procedural.Reader.Basic
import Procedural.Reader.Expr
import Procedural.Reader.Program
import Procedural.Reader.Stmt
import Procedural.Scope
import Procedural.Syntax.Expr
import Procedural.Syntax.Operator
import Procedural.Syntax.Program
import Procedural.Text.Invisible
import Procedural.Text.Numeral
import Procedural.Text.Quoted
import Procedural.Text.Utf8
import Procedural.Token.Basic
import Procedural.Token.Scan
import Procedural.Token.Stream
import Procedural.Tool
import Procedural.Ty
import Procedural.Typing.Basic
import Procedural.Typing.Expr
import Procedural.Typing.Program
import Procedural.Typing.Stmt
import Procedural.Value
