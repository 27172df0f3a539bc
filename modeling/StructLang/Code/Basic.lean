import StructLang.Library
import StructLang.Span
import StructLang.Value

namespace StructLang

inductive Code where
  | literal (value : Value) (type : Ty) (loc : Option Span)
  | name (name : String) (loc : Option Span)
  | binary (op : Operator) (left right : Code) (loc : Option Span)
  | call (callee : Code) (args : List Code) (builtin : Bool) (loc : Option Span)
  | member (object : Code) (property : String) (loc : Option Span)
  | param (name : String) (type : Ty) (loc : Option Span)
  | expr (expr : Code) (loc : Option Span)
  | ret (expr : Code) (loc : Option Span)
  | alias (name : String) (type : Ty) (loc : Option Span)
  | declare (name : String) (params : List Code) (result : Ty) (builtin : Bool)
      (loc : Option Span)
  | define (name : String) (params : List Code) (result : Ty) (body : List Code) (builtin : Bool)
      (loc : Option Span)
  | program (statements : List Code) (file : String) (loc : Option Span)
  | unruled (loc : Option Span)
  | nothing

namespace Code

def kind : Code → String
  | .literal .. => "LiteralIR"
  | .name .. => "VariableIR"
  | .binary .. => "BinaryIR"
  | .call .. => "CallIR"
  | .member .. => "MemberIR"
  | .param .. => "ParameterIR"
  | .expr .. => "ExpressionStatementIR"
  | .ret .. => "ReturnStatementIR"
  | .alias .. => "TypeAliasIR"
  | .declare .. | .define .. => "FunctionDeclIR"
  | .program .. => "ProgramIR"
  | .unruled .. => "PlaceholderIR"
  | .nothing => "NoneType"

def loc : Code → Option Span
  | .literal _ _ l | .name _ l | .binary _ _ _ l | .call _ _ _ l | .member _ _ l | .param _ _ l
  | .expr _ l | .ret _ l | .alias _ _ l | .declare _ _ _ _ l | .define _ _ _ _ _ l | .program _ _ l
  | .unruled l => l
  | .nothing => none

def calleeName? : Code → Option String
  | .name n _ => some n
  | _ => none

def ownName? : Code → Option String
  | .name n _ | .param n _ _ | .declare n _ _ _ _ | .define n _ _ _ _ _ => some n
  | _ => none

def statements : Code → List Code
  | .program ss _ _ => ss
  | _ => []

end Code

end StructLang
