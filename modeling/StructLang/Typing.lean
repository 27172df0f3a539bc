import StructLang.Fault
import StructLang.Library.Url
import StructLang.Library
import StructLang.Tree.Basic
import StructLang.Ty.Compare

/-!
Type checking. All aliases and function signatures are collected before anything is checked, so a
declaration may come after its use. Then the aliases are resolved, and the statements are checked in
order; the first fault ends the check.
-/

namespace StructLang

structure Declaration where
  params : List Tree
  result : Ty
  bodied : Bool
  deriving Repr

namespace Typing

structure State where
  aliases : Aliases := []
  signatures : Table Signature := []
  declarations : Table Declaration := []
  deriving Repr

structure Scope where
  aliases : Aliases
  signatures : Table Signature
  locals : Table (Option Ty) := []

namespace Scope

variable (sc : Scope)

def resolve (t : Ty) (loc : Option Span) : Except Fault Ty := atPlace loc (sc.aliases.resolve t)

def same (a b : Ty) : Except Fault Bool := atPlace none (sc.aliases.same a b)

def fits (value target : Ty) : Except Fault Bool := atPlace none (sc.aliases.fits value target)

def signature (name : String) (loc : Option Span) : Except Fault Signature :=
  match Library.find? name with
  | some s => .ok s
  | none =>
    match sc.signatures.get? name with
    | some s => .ok s
    | none => .error (.refused ⟨.undeclared name, loc⟩)

end Scope

def mismatch {α : Type} (m : Mismatch) (loc : Option Span) : Except Fault α :=
  .error (.refused ⟨.mismatch m, loc⟩)

def typed (e : Tree) (result : Except Fault (Option Ty)) : Except Fault Ty := do
  match ← result with
  | some t => return t
  | none => .error (.internal ("no type inferred for " ++ e.kind))

def requireOperands (sc : Scope) (op : Operator) (expected : Ty) (loc : Option Span) :
    List Ty → Except Fault Unit
  | [] => .ok ()
  | t :: ts => do
    if ← sc.same t expected then requireOperands sc op expected loc ts
    else mismatch (.operand op expected t) loc

def operatorType (sc : Scope) (op : Operator) (left right : Ty) (loc : Option Span) :
    Except Fault Ty :=
  match op with
  | .add =>
    if left.isAny || right.isAny then .ok .any
    else if left.isNumber && right.isNumber then .ok .number
    else if left.isString && right.isString then .ok .string
    else mismatch (.addition left right) loc
  | .sub | .mul | .div => do
    requireOperands sc op .number loc [left, right]
    return .number
  | .lt | .gt | .le | .ge => do
    requireOperands sc op .number loc [left, right]
    return .boolean
  | .eq | .ne => do
    if ← sc.same left right then return .boolean
    else mismatch (.comparison op left right) loc
  | .and | .or => do
    requireOperands sc op .boolean loc [left, right]
    return .boolean

def checkLiteral (name : String) (args : List Tree) (loc : Option Span) : Except Fault Unit :=
  match name, args with
  | "isURL", [.string text place] =>
    if Library.Url.accepts (Tree.unquote text) then .ok ()
    else .error (.refused ⟨.badLiteral name (Tree.unquote text), place <|> loc⟩)
  | _, _ => .ok ()

def boundName? : Tree → Option String
  | .name n _ | .param n _ _ | .alias n _ _ | .declare n _ _ _ | .define n _ _ _ _ => some n
  | _ => none

def boundType? : Tree → Option Ty
  | .param _ t _ | .alias _ t _ => some t
  | _ => none

def bindParams : List Tree → List (Option Ty) → Table (Option Ty) → Except Fault (Table (Option Ty))
  | p :: ps, t :: ts, locals =>
    match boundName? p with
    | some name => bindParams ps ts (locals.put name t)
    | none => .error .notANode
  | _, _, locals => .ok locals

def sameAll (sc : Scope) : List (Option Ty) → List Ty → Except Fault Bool
  | some t :: ts, e :: es => do if ← sc.same t e then sameAll sc ts es else return false
  | none :: _, _ :: _ => .error ((AliasError.unsupported "NoneType").at none)
  | _, _ => .ok true

/-- A library function may be declared only as it is. Of a variadic one, only the result counts. -/
def checkForward (sc : Scope) (name : String) (types : List (Option Ty)) (result : Ty)
    (loc : Option Span) : Except Fault Unit :=
  match Library.find? name with
  | none => .ok ()
  | some s => do
    let agrees ← do
      if ← sc.same result s.result then
        if s.variadic then pure true
        else if types.length = s.arity then sameAll sc types s.params
        else pure false
      else pure false
    if agrees then return ()
    else
      let reason := "declared signature does not match built-in " ++ s.text
      .error (.refused ⟨.reservedName name (some reason), loc⟩)

def aliasPlace (name : String) : List Tree → Option Span
  | [] => none
  | .alias n _ loc :: ss => if n = name then loc else aliasPlace name ss
  | _ :: ss => aliasPlace name ss

def resolveAliases (sc : Scope) (statements : List Tree) : Aliases → Except Fault Unit
  | [] => .ok ()
  | (name, t) :: Γ => do
    let _ ← sc.resolve t (aliasPlace name statements)
    resolveAliases sc statements Γ

def isReturn : Tree → Bool
  | .ret _ _ => true
  | _ => false

mutual

def closesScope : Tree → Bool
  | .define _ _ _ _ _ => true
  | .declare _ params _ _ => anyCloses params
  | .program statements _ _ => anyCloses statements
  | _ => false

def anyCloses : List Tree → Bool
  | [] => false
  | t :: ts => closesScope t || anyCloses ts

end

mutual

def visit (sc : Scope) : Tree → Except Fault (Option Ty)
  | .number _ _ => .ok (some .number)
  | .string _ _ => .ok (some .string)
  | .name n _ => .ok ((sc.locals.get? n).getD (some .any))
  | .binary op left right loc => do
    let l ← typed left (visit sc left)
    let r ← typed right (visit sc right)
    return some (← operatorType sc op l r loc)
  | .call callee args loc =>
    match callee.calleeName? with
    | none => do
      let _ ← typed callee (visit sc callee)
      inferAll sc args
      return some .any
    | some name => do
      let s ← sc.signature name loc
      if !s.variadic && args.length != s.arity then
        .error (.refused ⟨.arity name s.arity args.length, loc⟩)
      else
        checkArguments sc name s loc 0 args
        checkLiteral name args loc
        return some (← sc.resolve s.result loc)
  | .member object _ _ => do
    let _ ← typed object (visit sc object)
    return some .any
  | .param _ t loc => do return some (← sc.resolve t loc)
  | .alias _ t loc => do
    let _ ← sc.resolve t loc
    return none
  | .ret e _ => do
    let _ ← typed e (visit sc e)
    return none
  | .expr e ascribed loc => do
    let t ← typed e (visit sc e)
    match ascribed with
    | none => return none
    | some a =>
      if ← sc.same t (← sc.resolve a loc) then return none
      else
        let function := match e with
          | .call callee _ _ => callee.calleeName?
          | _ => none
        mismatch (.ascription function a t) loc
  | .declare name params result loc => do
    let types ← visitAll sc params
    let t ← sc.resolve result loc
    checkForward sc name types t loc
    return none
  | .define name params result body loc => do
    let types ← visitAll sc params
    let t ← sc.resolve result loc
    if Library.reserved name then .error (.refused ⟨.reservedName name none, loc⟩)
    else if !body.any isReturn then .error (.refused ⟨.missingReturn name, loc⟩)
    else
      let locals ← bindParams params types []
      match firstReturn { sc with locals } body with
      | none => return none
      | some (place, inferred) =>
        let found ← inferred
        if ← sc.same found t then return none
        else mismatch (.result name result found) (place <|> loc)
  | .program statements _ _ => do
    resolveAliases sc statements sc.aliases
    let _ ← visitAll sc statements
    return none
  | .unruled loc => .error (.noRules (Tree.unruled loc).kind)
  | .stray _ => .error .notANode

def visitAll (sc : Scope) : List Tree → Except Fault (List (Option Ty))
  | [] => .ok []
  | t :: ts => do
    let r ← visit sc t
    let rs ← visitAll (if closesScope t then { sc with locals := [] } else sc) ts
    return r :: rs

def inferAll (sc : Scope) : List Tree → Except Fault Unit
  | [] => .ok ()
  | t :: ts => do
    let _ ← typed t (visit sc t)
    inferAll sc ts

def checkArguments (sc : Scope) (name : String) (s : Signature) (loc : Option Span) (index : Nat) :
    List Tree → Except Fault Unit
  | [] => .ok ()
  | t :: ts => do
    let expected ← sc.resolve (s.params[min index (s.arity - 1)]?.getD .any) loc
    let found ← typed t (visit sc t)
    if ← sc.fits found expected then checkArguments sc name s loc (index + 1) ts
    else mismatch (.argument (index + 1) name expected found) (t.loc <|> loc)

def firstReturn (sc : Scope) : List Tree → Option (Option Span × Except Fault Ty)
  | [] => none
  | .ret e loc :: _ => some (loc, typed e (visit sc e))
  | _ :: ts => firstReturn sc ts

end

namespace State

variable (st : State)

def scope : Scope := ⟨st.aliases, st.signatures, []⟩

/-- Of the declarations of a name the first counts, unless it has no body and a later one has. -/
def addDeclaration (name : String) (d : Declaration) : State :=
  match st.declarations.get? name with
  | none => { st with declarations := st.declarations.put name d }
  | some old =>
    if d.bodied && !old.bodied then { st with declarations := st.declarations.put name d } else st

def addStatement : Tree → State
  | .alias name t _ => { st with aliases := st.aliases.put name t }
  | .declare name params result _ => st.addDeclaration name ⟨params, result, false⟩
  | .define name params result _ _ => st.addDeclaration name ⟨params, result, true⟩
  | _ => st

def paramTypes : List Tree → Except Fault (List Ty)
  | [] => .ok []
  | p :: ps =>
    match boundType? p with
    | some t => do return t :: (← paramTypes ps)
    | none => .error .notANode

def addSignatures (st : State) : List (String × Declaration) → State × Except Fault Unit
  | [] => (st, .ok ())
  | (name, d) :: ds =>
    match paramTypes d.params with
    | .ok params =>
      addSignatures { st with signatures := st.signatures.put name ⟨params, d.result, false⟩ } ds
    | .error e => (st, .error e)

def collect (statements : List Tree) : State × Except Fault Unit :=
  let st := statements.foldl addStatement st
  st.addSignatures st.declarations

/-- What was collected is kept, whether or not the program passes. -/
def check (program : Tree) : State × Except Fault Unit :=
  match st.collect program.statements with
  | (st, .error e) => (st, .error e)
  | (st, .ok ()) => (st, do let _ ← visit st.scope program)

end State

end Typing

end StructLang
