import StructLang.Code.Basic
import StructLang.Tree.Basic

namespace StructLang.Tree

mutual

def lower : Tree → Except Fault Code
  | .number text loc => do return .literal (← Value.ofNumeral text) .number loc
  | .string text loc => .ok (.literal (.text (unquote text)) .string loc)
  | .name n loc => .ok (.name n loc)
  | .binary op left right loc => do return .binary op (← left.lower) (← right.lower) loc
  | .call callee args loc => do
    let builtin := callee.calleeName?.any Library.reserved
    return .call (← callee.lower) (← lowerAll args) builtin loc
  | .member object property loc => do return .member (← object.lower) property loc
  | .param n t loc => .ok (.param n t loc)
  | .alias n t loc => .ok (.alias n t loc)
  | .ret e loc => do return .ret (← e.lower) loc
  | .expr e _ loc => do return .expr (← e.lower) loc
  | .declare n params result loc => do return .declare n (← lowerAll params) result false loc
  | .define n params result body loc => do
    return .define n (← lowerAll params) result (← lowerAll body) false loc
  | .program ss file loc => do return .program (← lowerAll ss) file loc
  | .unruled loc => .error (.refused ⟨.noLowering (Tree.unruled loc).kind, loc⟩)
  | .stray s => .error (.refused ⟨.noLowering (Tree.stray s).kind, none⟩)

def lowerAll : List Tree → Except Fault (List Code)
  | [] => .ok []
  | t :: ts => do return (← t.lower) :: (← lowerAll ts)

end

end StructLang.Tree
