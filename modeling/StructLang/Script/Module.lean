import StructLang.Code.Usage
import StructLang.Script.Expr
import StructLang.Table

/-!
The emitted script as a module: a binding for the runtime library, the aliases as comments, the
functions, and the statements of the top level.

Of the declarations of a name the first is emitted, unless it has no body and a later one has. A
function without a body forwards to the library. A library function that is called and not declared
gets a stub; one that is declared and not called gets nothing.
-/

namespace StructLang.Script

structure Options where
  wrap : Bool := true
  runtime : Option String := some "./runtime/stdlib"
  binding : String := "stdlib"
  deriving Repr

inductive Body where
  | lines (lines : List String)
  | forward (binding : String)
  deriving DecidableEq, Repr

structure Function where
  name : String
  params : List String
  rest : Option String := none
  body : Body
  deriving DecidableEq, Repr

namespace Function

def paramText (f : Function) : String :=
  ", ".intercalate (f.params ++ (f.rest.map ("..." ++ ·)).toList)

def bodyLines (f : Function) : List String :=
  match f.body with
  | .lines ls => ls
  | .forward b => ["return " ++ b ++ "." ++ f.name ++ "(" ++ f.paramText ++ ");"]

def text (f : Function) : String :=
  "\n".intercalate <|
    ["function " ++ f.name ++ "(" ++ f.paramText ++ ") \x7b"] ++
      f.bodyLines.map ("  " ++ ·) ++ ["\x7d"]

end Function

structure Module where
  wrap : Bool
  runtime : Option String
  binding : String
  aliases : List String
  functions : List Function
  statements : List String

def runtimeText : Option String → String
  | some path => Text.Ascii.encode path
  -- an empty list stands for no path
  | none => "[]"

def Module.lines (m : Module) : List String :=
  (if m.wrap then ["(function() \x7b"] else []) ++
    ["const " ++ m.binding ++ " = require(" ++ runtimeText m.runtime ++ ");", ""] ++
    (if m.aliases.isEmpty then [] else m.aliases ++ [""]) ++
    m.functions.flatMap (fun f => [f.text, ""]) ++
    (if m.statements.isEmpty then [] else "// Top-level statements:" :: m.statements) ++
    (if m.wrap then ["\x7d)();"] else [])

def Module.text (m : Module) : String := "\n".intercalate m.lines ++ "\n"

theorem countP_longer_lt {taken : List String} {name : String} (h : name ∈ taken) :
    taken.countP (fun t => (name ++ "_").length ≤ t.length) <
      taken.countP (fun t => name.length ≤ t.length) := by
  have hlen : (name ++ "_").length = name.length + 1 := by
    rw [String.length_append]
    rfl
  simp only [hlen]
  have hle (ts : List String) : ts.countP (fun t => name.length + 1 ≤ t.length) ≤
      ts.countP (fun t => name.length ≤ t.length) := by
    apply List.countP_mono_left
    intro t _ ht
    simp only [decide_eq_true_eq] at ht ⊢
    omega
  induction taken with
  | nil => cases h
  | cons t ts ih =>
    have hts := hle ts
    simp only [List.countP_cons, decide_eq_true_eq]
    rcases List.mem_cons.1 h with rfl | h
    · split <;> split <;> omega
    · have := ih h
      split <;> split <;> omega

def freeName (taken : List String) (name : String) : String :=
  if name ∈ taken then freeName taken (name ++ "_") else name
termination_by taken.countP fun t => name.length ≤ t.length
decreasing_by exact countP_longer_lt (by assumption)

def isFunction : Code → Bool
  | .declare .. | .define .. => true
  | _ => false

def functionName : Code → String
  | .declare n _ _ _ _ | .define n _ _ _ _ _ => n
  | _ => ""

def functionParams : Code → List Code
  | .declare _ ps _ _ _ | .define _ ps _ _ _ _ => ps
  | _ => []

def hasBody : Code → Bool
  | .define _ _ _ body _ _ => !body.isEmpty
  | _ => false

def functions (program : Code) : List Code := program.statements.filter isFunction

def paramNames : List Code → Except Fault (List String)
  | [] => .ok []
  | p :: ps =>
    match p.ownName? with
    | some n => do return n :: (← paramNames ps)
    | none => .error .notANode

def takenNames : List Code → Except Fault (List String)
  | [] => .ok []
  | f :: fs => do
    let ps ← paramNames (functionParams f)
    return functionName f :: ps ++ (← takenNames fs)

/-- The binding, renamed if a function or a parameter would hide it. -/
def bindingName (binding : String) (program : Code) : Except Fault String := do
  return freeName (← takenNames (functions program)) binding

def addFunction (chosen : Table Code) (f : Code) : Table Code :=
  match chosen.get? (functionName f) with
  | none => chosen.put (functionName f) f
  | some old => if hasBody f && !hasBody old then chosen.put (functionName f) f else chosen

/-- One declaration for each name, in the order of the first ones. -/
def chosenFunctions (fs : List Code) : Table Code := fs.foldl addFunction []

def emitFunction (binding : String) (f : Code) : Except Fault Function :=
  match f with
  | .declare name ps _ _ _ => do
    return forwarder name (← paramNames ps)
  | .define name ps _ body _ _ => do
    let params ← paramNames ps
    if body.isEmpty then return forwarder name params
    else return ⟨name, params, none, .lines (← Code.scripts body)⟩
  | _ => .error .notANode
where
  forwarder (name : String) (params : List String) : Function :=
    let variadic := (Library.find? name).any Signature.variadic
    ⟨name, params, if variadic then some (freeName params "rest") else none, .forward binding⟩

def emitStub (binding : String) (name : String) : Except Fault Function :=
  match Library.find? name with
  | none => .error (.internal ("'" ++ name ++ "' is not a builtin"))
  | some s =>
    if s.variadic then .ok ⟨name, [], some "args", .forward binding⟩
    else .ok ⟨name, (List.range s.arity).map fun i => s!"arg{i}", none, .forward binding⟩

def isSkipped (called : List String) (name : String) : Bool :=
  Library.reserved name && !called.contains name

def isAlias : Code → Bool
  | .alias .. => true
  | _ => false

def isStatement : Code → Bool
  | .expr .. => true
  | _ => false

def ofCode (o : Options) (program : Code) (called : List String) : Except Fault Module := do
  let binding ← bindingName o.binding program
  let chosen := chosenFunctions (functions program)
  let kept := (chosen.filter fun e => !isSkipped called e.1).map Prod.snd
  let declared ← kept.mapM (emitFunction binding)
  let stubs ← (called.filter fun n => !chosen.has n).mapM (emitStub binding)
  let aliases ← Code.scripts (program.statements.filter isAlias)
  let statements ← Code.scripts (program.statements.filter isStatement)
  return ⟨o.wrap, o.runtime, binding, aliases, declared ++ stubs, statements⟩

def emit (o : Options) (program : Code) (called : List String := program.calledBuiltins) :
    Except Fault String := do
  return (← ofCode o program called).text

end StructLang.Script
