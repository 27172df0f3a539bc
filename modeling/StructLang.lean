import StructLang.Code.Basic
import StructLang.Code.Dump
import StructLang.Code.Fold
import StructLang.Code.Lower
import StructLang.Code.Usage
import StructLang.Command.Args
import StructLang.Command.Run
import StructLang.Compile
import StructLang.Diagnostic
import StructLang.Disk
import StructLang.Fault
import StructLang.Journal
import StructLang.Library
import StructLang.Library.Url
import StructLang.Main
import StructLang.Number.Double
import StructLang.Number.Numeral
import StructLang.Number.Shortest
import StructLang.Operator
import StructLang.Path
import StructLang.Plan
import StructLang.SExpr
import StructLang.SExpr.Compact
import StructLang.Script.Expr
import StructLang.Script.Module
import StructLang.Span
import StructLang.Table
import StructLang.Text.Ascii
import StructLang.Text.Blank
import StructLang.Text.Digit
import StructLang.Text.Hex
import StructLang.Text.Listed
import StructLang.Text.Printable
import StructLang.Text.Ranges
import StructLang.Text.Split
import StructLang.Text.Utf8
import StructLang.Text.Word
import StructLang.ThreeAddress
import StructLang.Token
import StructLang.Token.Scan
import StructLang.Tree.Basic
import StructLang.Tree.Listing
import StructLang.Tree.Parse
import StructLang.Ty.Alias
import StructLang.Ty.Basic
import StructLang.Ty.Compare
import StructLang.Ty.Written
import StructLang.Typing
import StructLang.Value
import StructLang.Proofs.Place
import StructLang.Proofs.Tree.Grammar
import StructLang.Proofs.Outcome
import StructLang.Proofs.Tree.ParseSound
import StructLang.Proofs.Tree.ExprComplete
import StructLang.Proofs.Tree.ParseComplete
import StructLang.Proofs.Number.Decimal
import StructLang.Proofs.Token.Match
import StructLang.Proofs.Token.Lexes
import StructLang.Proofs.Script.RoundTrip
import StructLang.Proofs.Ty.Agreement
import StructLang.Proofs.Ty.Denotation
import StructLang.Proofs.Typing.Signatures
import StructLang.Proofs.Typing.Soundness
import StructLang.Proofs.Code.Folding
import StructLang.Proofs.Code.Meaning
import StructLang.Proofs.Number.Numeral
import StructLang.Proofs.Number.Range
import StructLang.Proofs.Tree.Shape
import StructLang.Proofs.Value
import StructLang.Proofs.Code.Shape
import StructLang.Proofs.Code.Summing
import StructLang.Proofs.Code.Rendering
import StructLang.Proofs.Table
import StructLang.Proofs.Code.Usage
import StructLang.Proofs.Script.Declarations
import StructLang.Proofs.Script.Functions
import StructLang.Proofs.Compile.Faults
import StructLang.Proofs.Compile.Returns
import StructLang.Proofs.Compile.Stages
import StructLang.Proofs.Compile.Functions
import StructLang.Proofs.Typing.Calls
import StructLang.Proofs.Script.Binding
import StructLang.Proofs.Compile.Forwarding
import StructLang.Proofs.Number.Nearest
import StructLang.Proofs.Script.Grammar
import StructLang.Proofs.Script.Words
import StructLang.Proofs.Script.Spelling
import StructLang.Proofs.Tree.Names
import StructLang.Proofs.Script.Reading
import StructLang.Proofs.Compile.Reading
import StructLang.Proofs.Token.Covering
import StructLang.Proofs.Token.Hygiene
import StructLang.Proofs.Tree.Hygiene
import StructLang.Proofs.Compile.Hygiene
import StructLang.Proofs.ThreeAddress.Emission
import StructLang.Proofs.ThreeAddress.Meaning
import StructLang.Proofs.ThreeAddress.Listing
import StructLang.Proofs.ThreeAddress.Texts
import StructLang.Proofs.Number.Spelling
import StructLang.Proofs.SExpr.Words
import StructLang.Proofs.SExpr.Reading
import StructLang.Proofs.Code.Dump
import StructLang.Proofs.Ty.Expansion
import StructLang.Proofs.Compile.Stopping
import StructLang.Proofs.Typing.Collecting
import StructLang.Proofs.Typing.Expansion
import StructLang.Proofs.Typing.Transparency
import StructLang.Proofs.Typing.Reordering
import StructLang.Proofs.Tree.Placing
import StructLang.Proofs.Token.Lines
import StructLang.Proofs.Compile.Pointing
import StructLang.Proofs.Code.Folded
import StructLang.Proofs.Code.Walk
import StructLang.Proofs.Code.Counting
import StructLang.Proofs.Ty.Resolution
import StructLang.Proofs.Ty.Equivalence
import StructLang.Proofs.Ty.Passing
import StructLang.Proofs.Token.Keywords
import StructLang.Proofs.ThreeAddress.Freshness
import StructLang.Proofs.Compile.Usage
import StructLang.Proofs.Typing.Reserved
import StructLang.Proofs.Typing.Redeclarations
import StructLang.Proofs.Compile.Redeclarations
import StructLang.Proofs.Tree.Naming
import StructLang.Proofs.Typing.Addresses
import StructLang.Proofs.Script.Quoting
import StructLang.Proofs.Number.Rounding
import StructLang.Proofs.Script.NumericLiterals
import StructLang.Proofs.Code.Rounding
import StructLang.Proofs.SExpr.Layout
import StructLang.Proofs.Token.Spans
import StructLang.Proofs.Compile.Underlining
import StructLang.Proofs.Compile.AliasPlaces
import StructLang.Proofs.Text.Escapes
import StructLang.Proofs.Diagnostic.Coloring
import StructLang.Proofs.Plan
import StructLang.Proofs.Tree.Progress
import StructLang.Proofs.Token.Spacing
import StructLang.Proofs.Ty.Running
import StructLang.Proofs.Script.FreeNames
