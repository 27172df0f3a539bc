import StructLang.Operator
import StructLang.Span
import StructLang.Ty.Basic

namespace StructLang

inductive Stray where
  | nothing
  | text (s : String)
  deriving DecidableEq, Repr

inductive Tree where
  | number (text : String) (loc : Option Span)
  | string (text : String) (loc : Option Span)
  | name (name : String) (loc : Option Span)
  | binary (op : Operator) (left right : Tree) (loc : Option Span)
  | call (callee : Tree) (args : List Tree) (loc : Option Span)
  | member (object : Tree) (property : String) (loc : Option Span)
  | param (name : String) (type : Ty) (loc : Option Span)
  | alias (name : String) (type : Ty) (loc : Option Span)
  | ret (expr : Tree) (loc : Option Span)
  | expr (expr : Tree) (ascribed : Option Ty) (loc : Option Span)
  | declare (name : String) (params : List Tree) (result : Ty) (loc : Option Span)
  | define (name : String) (params : List Tree) (result : Ty) (body : List Tree)
      (loc : Option Span)
  | program (statements : List Tree) (file : String) (loc : Option Span)
  | unruled (loc : Option Span)
  | stray (stray : Stray)
  deriving Repr

namespace Tree

def kind : Tree → String
  | .number .. => "NumberLiteral"
  | .string .. => "StringLiteral"
  | .name .. => "Identifier"
  | .binary .. => "BinaryExpr"
  | .call .. => "CallExpr"
  | .member .. => "MemberExpr"
  | .param .. => "Parameter"
  | .alias .. => "TypeAliasDecl"
  | .ret .. => "ReturnStatement"
  | .expr .. => "ExpressionStatement"
  | .declare .. | .define .. => "FunctionDecl"
  | .program .. => "Program"
  | .unruled .. => "Placeholder"
  | .stray .nothing => "NoneType"
  | .stray (.text _) => "str"

def loc : Tree → Option Span
  | .number _ l | .string _ l | .name _ l | .binary _ _ _ l | .call _ _ l | .member _ _ l
  | .param _ _ l | .alias _ _ l | .ret _ l | .expr _ _ l | .declare _ _ _ l | .define _ _ _ _ l
  | .program _ _ l | .unruled l => l
  | .stray _ => none

def calleeName? : Tree → Option String
  | .name n _ => some n
  | _ => none

def statements : Tree → List Tree
  | .program ss _ _ => ss
  | _ => []

def unquote (text : String) : String := String.ofList (text.toList.drop 1).dropLast

end Tree

end StructLang
