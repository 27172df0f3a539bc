namespace StructLang

inductive Ty where
  | prim (name : String)
  | array (element : Ty)
  | union (members : List Ty)
  | alias (name : String)
  | foreign
  deriving Repr

namespace Ty

def number : Ty := .prim "number"

def string : Ty := .prim "string"

def boolean : Ty := .prim "boolean"

def any : Ty := .prim "any"

def primitives : List String := ["number", "string", "boolean", "void", "any"]

def isAny : Ty → Bool
  | .prim name => name == "any"
  | _ => false

def isNumber : Ty → Bool
  | .prim name => name == "number"
  | _ => false

def isString : Ty → Bool
  | .prim name => name == "string"
  | _ => false

mutual

def text : Ty → String
  | .prim name => name
  | .array e => e.text ++ "[]"
  | .union ms => "|".intercalate (texts ms)
  | .alias name => name
  | .foreign => "opaque"

def texts : List Ty → List String
  | [] => []
  | t :: ts => t.text :: texts ts

end

end Ty

end StructLang
