import StructLang.Code.Basic

/-!
Constant folding: a sum of two literals of one type becomes a literal. Calls to the library and
members are left as they are, and functions without a body are marked as the library's.
-/

namespace StructLang.Code

/-- What folding has done so far; it is kept when folding fails. -/
structure Tally where
  folds : Nat := 0
  builtins : Nat := 0
  sums : List (String × String) := []
  deriving DecidableEq, Repr

abbrev FoldM := ExceptT Fault (StateM Tally)

def foldable (a b : Ty) : Bool := (a.isNumber && b.isNumber) || (a.isString && b.isString)

/-- The sum of two literals. It is counted first, then listed, then computed. -/
def foldSum (a b : Value) (type : Ty) (loc : Option Span) : FoldM Code := do
  modify fun t => { t with folds := t.folds + 1 }
  let left ← liftExcept a.listing
  let right ← liftExcept b.listing
  modify fun t => { t with sums := t.sums ++ [(left, right)] }
  return .literal (← liftExcept (a.add b)) type loc
where
  liftExcept {α : Type} (e : Except Fault α) : FoldM α := ExceptT.mk (pure e)

def foldBinary (op : Operator) (left right : Code) (loc : Option Span) : FoldM Code :=
  match op, left, right with
  | .add, .literal a s _, .literal b t _ =>
    if foldable s t then foldSum a b s loc else return .binary op left right loc
  | _, _, _ => return .binary op left right loc

def markBuiltin (c : Code) : FoldM Code := do
  modify fun t => { t with builtins := t.builtins + 1 }
  return c

mutual

def foldM : Code → FoldM Code
  | .binary op left right loc => do
    let l ← left.foldM
    let r ← right.foldM
    foldBinary op l r loc
  | .call callee args builtin loc =>
    if builtin then return .call callee args builtin loc
    else do
      let f ← callee.foldM
      return .call f (← foldAll args) builtin loc
  | .expr e loc => do return .expr (← e.foldM) loc
  | .ret e loc => do return .ret (← e.foldM) loc
  | .declare n params result _ loc => markBuiltin (.declare n params result true loc)
  | .define n params result body builtin loc =>
    if body.isEmpty then markBuiltin (.define n params result body true loc)
    else do return .define n params result (← foldAll body) builtin loc
  | .program ss file loc => do return .program (← foldAll ss) file loc
  | .unruled loc => throw (.noRules (Code.unruled loc).kind)
  | .nothing => throw .notANode
  | c => return c

def foldAll : List Code → FoldM (List Code)
  | [] => return []
  | c :: cs => do return (← c.foldM) :: (← foldAll cs)

end

def fold (c : Code) (t : Tally := {}) : Except Fault Code × Tally := c.foldM.run.run t

end StructLang.Code
