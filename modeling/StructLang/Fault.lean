import StructLang.Number.Numeral
import StructLang.Operator
import StructLang.Span
import StructLang.Ty.Alias

namespace StructLang

inductive Mismatch where
  | result (function : String) (declared inferred : Ty)
  | ascription (function : Option String) (ascribed actual : Ty)
  | addition (left right : Ty)
  | comparison (op : Operator) (left right : Ty)
  | operand (op : Operator) (expected found : Ty)
  | argument (place : Nat) (function : String) (expected found : Ty)
  | other (message : String) (expected found : Option String)
  deriving Repr

namespace Mismatch

def expected : Mismatch → Option String
  | .result _ declared _ => some declared.text
  | .ascription _ _ actual => some actual.text
  | .addition left _ => some left.text
  | .comparison _ left _ => some left.text
  | .operand _ expected _ => some expected.text
  | .argument _ _ expected _ => some expected.text
  | .other _ expected _ => expected

def found : Mismatch → Option String
  | .result _ _ inferred => some inferred.text
  | .ascription _ ascribed _ => some ascribed.text
  | .addition _ right => some right.text
  | .comparison _ _ right => some right.text
  | .operand _ _ found => some found.text
  | .argument _ _ _ found => some found.text
  | .other _ _ found => found

def message : Mismatch → String
  | .result function declared inferred =>
    s!"function '{function}' should return '{declared.text}' but returns '{inferred.text}'"
  | .ascription function ascribed actual =>
    s!"call to '{function.getD noName}' is annotated '{ascribed.text}' but returns '{actual.text}'"
  | .addition left right => s!"cannot add '{left.text}' and '{right.text}'"
  | .comparison op left right =>
    s!"cannot compare '{left.text}' with '{right.text}' using '{op.symbol}'"
  | .operand op expected found =>
    s!"operator '{op.symbol}' expects '{expected.text}' operands, found '{found.text}'"
  | .argument place function expected found =>
    s!"argument {place} of '{function}' has type '{found.text}', expected '{expected.text}'"
  | .other message _ _ => message
where
  noName : String := "None"

end Mismatch

inductive Area where
  | source | typing | lowering
  deriving DecidableEq, Repr

inductive Cause where
  | general (area : Area) (message : String) (help label : Option String)
  | strayCharacter (position : Int) (char : String)
  | unexpected (expected found : String)
  | unknownAlias (name : String) (wording : Option String)
  | cyclicAlias (chain : List String)
  | arity (name : String) (expected found : Int)
  | mismatch (mismatch : Mismatch)
  | undeclared (name : String)
  | reservedName (name : String) (reason : Option String)
  | missingReturn (name : String)
  | badLiteral (name value : String)
  | noLowering (kind : String)
  deriving Repr

def given (s : Option String) : Option String := s.filter (· ≠ "")

namespace Cause

def title : Cause → String
  | .general .source _ _ _ => "StructuraError"
  | .general .typing _ _ _ => "TypeCheckError"
  | .general .lowering _ _ _ => "IRGenerationError"
  | .strayCharacter _ _ => "LexError"
  | .unexpected _ _ => "ParseError"
  | .unknownAlias _ _ => "UnknownAlias"
  | .cyclicAlias _ => "CyclicAlias"
  | .arity _ _ _ => "ArityMismatch"
  | .mismatch _ => "TypeMismatch"
  | .undeclared _ => "UndeclaredFunction"
  | .reservedName _ _ => "ReservedNameViolation"
  | .missingReturn _ => "MissingReturnStatement"
  | .badLiteral _ _ => "InvalidLiteralArgument"
  | .noLowering _ => "UnsupportedNode"

def code : Cause → String
  | .general .source _ _ _ => "E0001"
  | .general .typing _ _ _ => "E0308"
  | .general .lowering _ _ _ => "E0700"
  | .strayCharacter _ _ => "E0001"
  | .unexpected _ _ => "E0002"
  | .unknownAlias _ _ => "E0412"
  | .cyclicAlias _ => "E0391"
  | .arity _ _ _ => "E0061"
  | .mismatch _ => "E0308"
  | .undeclared _ => "E0425"
  | .reservedName _ _ => "E0428"
  | .missingReturn _ => "E0069"
  | .badLiteral _ _ => "E0080"
  | .noLowering _ => "E0700"

def message : Cause → String
  | .general _ message _ _ => message
  | .strayCharacter position char =>
    s!"unexpected character {Text.listed char} at position {position}"
  | .unexpected expected found => s!"expected {expected}, found {found}"
  | .unknownAlias name wording => (given wording).getD s!"cannot find type alias '{name}'"
  | .cyclicAlias chain => "cyclic type alias: " ++ " -> ".intercalate chain
  | .arity name expected found =>
    let plural := if expected = 1 then "" else "s"
    s!"function '{name}' expects {expected} argument{plural} but got {found}"
  | .mismatch m => m.message
  | .undeclared name => s!"cannot find function '{name}'"
  | .reservedName name reason =>
    s!"cannot redefine built-in function '{name}'" ++
      ((given reason).map fun r => ": " ++ r).getD ""
  | .missingReturn name => s!"function '{name}' has no return statement"
  | .badLiteral name value => s!"literal argument {Text.listed value} is not valid for '{name}'"
  | .noLowering kind => s!"no IR lowering for node kind '{kind}'"

def help : Cause → Option String
  | .general _ _ help _ => help
  | .unknownAlias _ _ | .cyclicAlias _ => some "declare it with `Name = type;`"
  | .reservedName _ _ => some "built-in functions may only be forward-declared without a body"
  | _ => none

def label : Cause → Option String
  | .general _ _ _ label => label
  | .strayCharacter _ _ => some "no token starts here"
  | .unexpected expected _ => some ("expected " ++ expected)
  | .mismatch m => (given m.expected).map fun e => "expected `" ++ e ++ "`"
  | .undeclared _ => some "not declared"
  | _ => none

end Cause

structure Failure where
  cause : Cause
  loc : Option Span := none
  deriving Repr

namespace Failure

def message (f : Failure) : String := f.cause.message

def code (f : Failure) : String := f.cause.code

def text (f : Failure) : String :=
  s!"error[{f.code}]: {f.message}" ++ (f.loc.map fun l => "\n --> " ++ l.text).getD ""

end Failure

inductive Fault where
  | refused (failure : Failure)
  | internal (message : String)
  | noRules (kind : String)
  /-- Something that is no node, or lacks a part that is asked for, stands where a node belongs. -/
  | notANode
  | notAddable
  | numeral (error : NumeralError)
  | unwritable
  | tooLarge
  | unknownStage (name : String) (stages : List String)
  deriving Repr

def NumeralError.message : NumeralError → String
  | .tooManyDigits count =>
    s!"Exceeds the limit ({Numeral.digitLimit} digits) for integer string conversion: value has " ++
      s!"{count} digits; use sys.set_int_max_str_digits() to increase the limit"
  | .badInteger text =>
    "invalid literal for int() with base 10: " ++
      String.ofList ((Text.listedChars text.toList).take 200)
  | .badReal text => "could not convert string to float: " ++ Text.listed text

def Fault.internalCode : String := "E9999"

def Fault.internalText (code message : String) : String := "[" ++ code ++ "] " ++ message

def Fault.message : Fault → String
  | .refused f => f.message
  | .internal message => internalText internalCode message
  | .noRules kind => "accept() not implemented for " ++ kind
  | .notANode => "not a node"
  | .notAddable => "not addable"
  | .numeral e => e.message
  | .unwritable =>
    s!"Exceeds the limit ({Numeral.digitLimit} digits) for integer string conversion; use " ++
      "sys.set_int_max_str_digits() to increase the limit"
  | .tooLarge => "int too large to convert to float"
  | .unknownStage name stages =>
    s!"unknown stage {Text.listed name}; expected one of " ++ ", ".intercalate stages

def AliasError.at (loc : Option Span) : AliasError → Fault
  | .unknown name => .refused ⟨.unknownAlias name none, loc⟩
  | .cyclic chain => .refused ⟨.cyclicAlias chain, loc⟩
  | .unsupported kind => .internal ("unknown type node " ++ kind)

def atPlace {α : Type} (loc : Option Span) : Except AliasError α → Except Fault α
  | .ok a => .ok a
  | .error e => .error (e.at loc)

end StructLang
