import StructLang.Code.Basic
import StructLang.SExpr

namespace StructLang

namespace Ty

mutual

def dump : Ty → SExpr
  | .prim name => .list [.symbol "type", .symbol name]
  | .array e => .list [.symbol "array-type", e.dump]
  | .union ms => .list (.symbol "union-type" :: dumpAll ms)
  | .alias name => .list [.symbol "alias", .atom (.text name)]
  | .foreign => .list [.symbol "type", .atom (.text (text .foreign))]

def dumpAll : List Ty → List SExpr
  | [] => []
  | t :: ts => t.dump :: dumpAll ts

end

end Ty

namespace Code

def dumpPlace (places : Bool) : Option Span → List SExpr
  | some l =>
    if places then
      [.symbol ":loc", .list [.atom (.text l.file), .atom (.int l.line), .atom (.int l.column)]]
    else []
  | none => []

def dumpFlag (builtin : Bool) : List SExpr :=
  if builtin then [.symbol ":builtin", .symbol "true"] else []

def dumpText (s : String) : SExpr := .atom (.text s)

mutual

def dump (places : Bool) : Code → Except Fault SExpr
  | .literal v t loc =>
    .ok (.list ([.symbol "literal", .atom v, .symbol t.text] ++ dumpPlace places loc))
  | .name n loc => .ok (.list ([.symbol "variable", dumpText n] ++ dumpPlace places loc))
  | .binary op left right loc => do
    let l ← left.dump places
    let r ← right.dump places
    return .list ([.symbol "binary-op", .symbol op.symbol, l, r] ++ dumpPlace places loc)
  | .call callee args builtin loc => do
    let f ← callee.dump places
    let xs ← dumpAll places args
    return .list ([.symbol "call", f, .list xs] ++ dumpFlag builtin ++ dumpPlace places loc)
  | .member object property loc => do
    let o ← object.dump places
    return .list ([.symbol "member", o, dumpText property] ++ dumpPlace places loc)
  | .param n t loc =>
    .ok (.list ([.symbol "param", dumpText n, t.dump] ++ dumpPlace places loc))
  | .expr e loc => do
    return .list ([.symbol "expression-statement", ← e.dump places] ++ dumpPlace places loc)
  | .ret e loc => do
    return .list ([.symbol "return", ← e.dump places] ++ dumpPlace places loc)
  | .alias n t loc =>
    .ok (.list ([.symbol "type-alias", dumpText n, t.dump] ++ dumpPlace places loc))
  | .declare n params result builtin loc => do
    let ps ← dumpAll places params
    return .list ([.symbol "function-decl", dumpText n, .list (.symbol "params" :: ps),
      result.dump] ++ dumpFlag builtin ++ dumpPlace places loc)
  | .define n params result body builtin loc => do
    let ps ← dumpAll places params
    let ss ← dumpAll places body
    return .list ([.symbol "function-decl", dumpText n, .list (.symbol "params" :: ps),
      result.dump, .list (.symbol "body" :: ss)] ++ dumpFlag builtin ++ dumpPlace places loc)
  | .program ss file loc => do
    let ss ← dumpAll places ss
    return .list ([.symbol "program", dumpText file] ++ ss ++ dumpPlace places loc)
  | .unruled loc => .error (.internal ("no serializer for " ++ (Code.unruled loc).kind))
  | .nothing => .ok (.list [.symbol "nil"])

def dumpAll (places : Bool) : List Code → Except Fault (List SExpr)
  | [] => .ok []
  | c :: cs => do return (← c.dump places) :: (← dumpAll places cs)

end

section

variable (w : SExpr.Writer) (places : Bool) (c : Code)

def prettyDump : Except Fault String := do (← c.dump places).pretty w {} 0

def compactDump : Except Fault String := do w (← c.dump places)

end

end Code

end StructLang
