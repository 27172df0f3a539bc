import StructLang.Code.Basic

/-!
Expressions and statements of the emitted script. An operand that is itself an operation is put in
parentheses where the script would group it otherwise: on the left if it binds looser, on the right
also if it binds equally tight, and always before a call or a member.
-/

namespace StructLang.Code

def level? : Code → Option Nat
  | .binary op _ _ _ => some op.level
  | _ => none

def parens (needed : Bool) (text : String) : String := if needed then "(" ++ text ++ ")" else text

mutual

def script : Code → Except Fault String
  | .literal v _ _ => v.script
  | .name n _ | .param n _ _ => .ok n
  | .binary op left right _ => do
    let l := parens (left.level?.any (· < op.level)) (← left.script)
    let r := parens (right.level?.any (· ≤ op.level)) (← right.script)
    return l ++ " " ++ op.symbol ++ " " ++ r
  | .call callee args _ _ => do
    let xs ← scripts args
    let f := parens callee.level?.isSome (← callee.script)
    return f ++ "(" ++ ", ".intercalate xs ++ ")"
  | .member object property _ => do
    return parens object.level?.isSome (← object.script) ++ "." ++ property
  | .expr e _ => do return (← e.script) ++ ";"
  | .ret e _ => do return "return " ++ (← e.script) ++ ";"
  | .alias n t _ => .ok ("// Type alias: " ++ n ++ " = " ++ t.text)
  | .declare .. | .define .. =>
    .error (.internal "function declarations are emitted by JavaScriptBackend")
  | .program .. => .error (.internal "programs are emitted by JavaScriptBackend")
  | .unruled loc => .error (.noRules (Code.unruled loc).kind)
  | .nothing => .error .notANode

def scripts : List Code → Except Fault (List String)
  | [] => .ok []
  | c :: cs => do return (← c.script) :: (← scripts cs)

end

end StructLang.Code
