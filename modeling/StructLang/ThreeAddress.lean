import StructLang.Code.Basic

namespace StructLang.ThreeAddress

inductive Operand where
  | literal (value : Value) (text : String)
  | name (name : String)
  | temp (index : Nat)
  | member (object : Operand) (property : String)
  | blank
  deriving DecidableEq

def Operand.text : Operand → String
  | .literal _ s => s
  | .name n => n
  | .temp k => s!"t{k}"
  | .member o p => o.text ++ "." ++ p
  | .blank => ""

inductive Line where
  | function (name : String)
  | forwards (name : String)
  | noBody
  | operation (temp : Nat) (op : Operator) (left right : Operand)
  | call (temp : Nat) (callee : Operand) (args : List Operand)
  | result (value : Operand)
  | ret (value : Operand)
  deriving DecidableEq

def Line.text : Line → String
  | .function n => s!"--- Function {n} ---"
  | .forwards n => s!"(builtin function: {n} forwarding to stdlib)"
  | .noBody => "(no body)"
  | .operation k op l r => s!"t{k} := {l.text} {op.symbol} {r.text}"
  | .call k f xs => s!"t{k} := {f.text}(" ++ ", ".intercalate (xs.map Operand.text) ++ ")"
  | .result x => s!"(result: {x.text})"
  | .ret x => "return " ++ x.text

structure State where
  temps : Nat := 0
  lines : List Line := []

abbrev EmitM := ExceptT Fault (StateM State)

def emitLine (l : Line) : EmitM Unit := modify fun s => { s with lines := s.lines ++ [l] }

def newTemp : EmitM Nat := do
  modify fun s => { s with temps := s.temps + 1 }
  return (← get).temps

mutual

/-- The lines of a node are appended; the operand that names its result is returned. -/
def emit : Code → EmitM Operand
  | .literal v _ _ => do return .literal v (← ExceptT.mk (pure v.script))
  | .name n _ | .param n _ _ => return .name n
  | .binary op left right _ => do
    let l ← emit left
    let r ← emit right
    let k ← newTemp
    emitLine (.operation k op l r)
    return .temp k
  | .call callee args _ _ => do
    let f ← emit callee
    let xs ← emitAll args
    let k ← newTemp
    emitLine (.call k f xs)
    return .temp k
  | .member object property _ => do return .member (← emit object) property
  | .expr e _ => do
    emitLine (.result (← emit e))
    return .blank
  | .ret e _ => do
    emitLine (.ret (← emit e))
    return .blank
  | .alias _ _ _ => return .blank
  | .declare n _ _ builtin _ => do
    emitLine (.function n)
    emitLine (if builtin then .forwards n else .noBody)
    return .blank
  | .define n _ _ body builtin _ => do
    emitLine (.function n)
    if body.isEmpty then emitLine (if builtin then .forwards n else .noBody)
    else let _ ← emitAll body
    return .blank
  | .program ss _ _ => do
    let _ ← emitAll ss
    return .blank
  | .unruled loc => throw (.noRules (Code.unruled loc).kind)
  | .nothing => throw .notANode

def emitAll : List Code → EmitM (List Operand)
  | [] => return []
  | c :: cs => do return (← emit c) :: (← emitAll cs)

end

def run (c : Code) (s : State := {}) : Except Fault Operand × State := (emit c).run.run s

def State.text (s : State) : String := "\n".intercalate (s.lines.map Line.text)

def listing (c : Code) : Except Fault String :=
  match run c with
  | (.ok _, s) => .ok s.text
  | (.error e, _) => .error e

end StructLang.ThreeAddress
