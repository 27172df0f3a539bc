import Mathlib.Algebra.GroupWithZero.Nat
import StructLang.Code.Basic

namespace StructLang.Code

def children : Code → List Code
  | .binary _ l r _ => [l, r]
  | .call f args _ _ => f :: args
  | .member o _ _ => [o]
  | .expr e _ | .ret e _ => [e]
  | .declare _ params _ _ _ => params
  | .define _ params _ body _ _ => params ++ body
  | .program ss _ _ => ss
  | _ => []

mutual

def preorder : Code → List Code
  | .binary op l r place => .binary op l r place :: (l.preorder ++ r.preorder)
  | .call f args builtin place => .call f args builtin place :: (f.preorder ++ preorderAll args)
  | .member o property place => .member o property place :: o.preorder
  | .expr e place => .expr e place :: e.preorder
  | .ret e place => .ret e place :: e.preorder
  | .declare n params result builtin place =>
    .declare n params result builtin place :: preorderAll params
  | .define n params result body builtin place =>
    .define n params result body builtin place :: (preorderAll params ++ preorderAll body)
  | .program ss file place => .program ss file place :: preorderAll ss
  | c => [c]

def preorderAll : List Code → List Code
  | [] => []
  | c :: cs => c.preorder ++ preorderAll cs

end

theorem preorderAll_eq_flatMap (cs : List Code) : preorderAll cs = cs.flatMap preorder := by
  induction cs with
  | nil => rfl
  | cons c cs ih => rw [preorderAll, ih, List.flatMap_cons]

theorem preorder_eq_cons (c : Code) : c.preorder = c :: c.children.flatMap preorder := by
  cases c <;> simp [preorder, children, preorderAll_eq_flatMap]

def count (kind : String) (c : Code) : Nat := c.preorder.countP (·.kind == kind)

theorem count_eq_add (kind : String) (c : Code) :
    c.count kind = (if c.kind = kind then 1 else 0) + (c.children.map (count kind)).sum := by
  rw [count, preorder_eq_cons, List.countP_cons, List.countP_flatMap, Nat.add_comm]
  simp only [beq_iff_eq]
  rfl

def nodeAt? : List Nat → Code → Option Code
  | [], c => some c
  | i :: path, c => c.children[i]?.bind (nodeAt? path)

/-- A call to the library or a member, inside of which folding changes nothing. -/
def isSealed : Code → Bool
  | .call _ _ builtin _ => builtin
  | .member .. => true
  | _ => false

inductive Exposed (d : Code) : Code → Prop
  | self : Exposed d d
  | child : c.isSealed = false → e ∈ c.children → Exposed d e → Exposed d c

end StructLang.Code
