import StructLang.Code.Basic

namespace StructLang.Code

mutual

def builtinCalls : Code → List String
  | .call callee args _ _ =>
    (callee.calleeName?.filter Library.reserved).toList ++ callee.builtinCalls ++
      builtinCallsAll args
  | .binary _ left right _ => left.builtinCalls ++ right.builtinCalls
  | .member object _ _ => object.builtinCalls
  | .expr e _ | .ret e _ => e.builtinCalls
  | .define _ _ _ body _ _ => builtinCallsAll body
  | .program ss _ _ => builtinCallsAll ss
  | _ => []

def builtinCallsAll : List Code → List String
  | [] => []
  | c :: cs => c.builtinCalls ++ builtinCallsAll cs

end

def calledBuiltins (c : Code) : List String := c.builtinCalls.eraseDups

end StructLang.Code
