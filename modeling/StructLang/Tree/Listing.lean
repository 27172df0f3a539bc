import StructLang.Text.Listed
import StructLang.Tree.Basic

namespace StructLang

def record (kind : String) (parts : List (String × String)) : String :=
  kind ++ "(" ++ ", ".intercalate (parts.map fun p => p.1 ++ "=" ++ p.2) ++ ")"

def sequence : List String → String
  | [x] => "(" ++ x ++ ",)"
  | xs => "(" ++ ", ".intercalate xs ++ ")"

namespace Ty

mutual

def listing : Ty → String
  | .prim name => record "PrimitiveType" [("name", Text.listed name)]
  | .array e => record "ArrayType" [("element", e.listing)]
  | .union ms => record "UnionType" [("members", sequence (listings ms))]
  | .alias name => record "AliasType" [("name", Text.listed name)]
  | .foreign => record "OpaqueType" []

def listings : List Ty → List String
  | [] => []
  | t :: ts => t.listing :: listings ts

end

end Ty

def Operator.listing (op : Operator) : String :=
  "<BinaryOp." ++ op.title ++ ": " ++ Text.listed op.symbol ++ ">"

def Span.listing (s : Span) : String :=
  record "SourceLocation" [("file", Text.listed s.file), ("line", toString s.line),
    ("column", toString s.column), ("end_line", toString s.endLine),
    ("end_column", toString s.endColumn)]

def noneListed : Option String → String := (·.getD "None")

namespace Tree

mutual

def listing : Tree → String
  | .number text _ => record "NumberLiteral" [("text", Text.listed text)]
  | .string text _ => record "StringLiteral" [("text", Text.listed text)]
  | .name n _ => record "Identifier" [("name", Text.listed n)]
  | .binary op left right _ =>
    record "BinaryExpr" [("op", op.listing), ("left", left.listing), ("right", right.listing)]
  | .call callee args _ =>
    record "CallExpr" [("callee", callee.listing), ("args", sequence (listings args))]
  | .member object property _ =>
    record "MemberExpr" [("object", object.listing), ("property", Text.listed property)]
  | .param n type _ => record "Parameter" [("name", Text.listed n), ("type", type.listing)]
  | .alias n type _ =>
    record "TypeAliasDecl" [("name", Text.listed n), ("type", type.listing)]
  | .ret e _ => record "ReturnStatement" [("expr", e.listing)]
  | .expr e ascribed _ =>
    record "ExpressionStatement"
      [("expr", e.listing), ("return_type", noneListed (ascribed.map Ty.listing))]
  | .declare n params result _ =>
    record "FunctionDecl" [("name", Text.listed n), ("params", sequence (listings params)),
      ("return_type", result.listing), ("body", noneListed none)]
  | .define n params result body _ =>
    record "FunctionDecl" [("name", Text.listed n), ("params", sequence (listings params)),
      ("return_type", result.listing), ("body", sequence (listings body))]
  | .program statements file _ =>
    record "Program"
      [("statements", sequence (listings statements)), ("source_file", Text.listed file)]
  | .unruled loc => record "Placeholder" [("location", noneListed (loc.map Span.listing))]
  | .stray .nothing => noneListed none
  | .stray (.text s) => Text.listed s

def listings : List Tree → List String
  | [] => []
  | t :: ts => t.listing :: listings ts

end

end Tree

end StructLang
