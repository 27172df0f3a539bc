import StructLang.Tree.Basic

namespace StructLang.Tree

mutual

def preorder : Tree → List Tree
  | .binary op l r place => .binary op l r place :: (l.preorder ++ r.preorder)
  | .call f args place => .call f args place :: (f.preorder ++ preorderAll args)
  | .member o property place => .member o property place :: o.preorder
  | .ret e place => .ret e place :: e.preorder
  | .expr e ascribed place => .expr e ascribed place :: e.preorder
  | .declare n params result place => .declare n params result place :: preorderAll params
  | .define n params result body place =>
    .define n params result body place :: (preorderAll params ++ preorderAll body)
  | .program ss file place => .program ss file place :: preorderAll ss
  | t => [t]

def preorderAll : List Tree → List Tree
  | [] => []
  | t :: ts => t.preorder ++ preorderAll ts

end

def children : Tree → List Tree
  | .binary _ l r _ => [l, r]
  | .call f args _ => f :: args
  | .member o _ _ => [o]
  | .ret e _ | .expr e _ _ => [e]
  | .declare _ params _ _ => params
  | .define _ params _ body _ => params ++ body
  | .program ss _ _ => ss
  | _ => []

theorem preorderAll_eq_flatMap (ts : List Tree) : preorderAll ts = ts.flatMap preorder := by
  induction ts with
  | nil => rfl
  | cons t ts ih => rw [preorderAll, ih, List.flatMap_cons]

theorem preorder_eq_cons (t : Tree) : t.preorder = t :: t.children.flatMap preorder := by
  cases t <;> simp [preorder, children, preorderAll_eq_flatMap]

theorem forall_mem_preorder {Q : Tree → Prop} {t : Tree} :
    (∀ s ∈ t.preorder, Q s) ↔ Q t ∧ ∀ s ∈ t.children, ∀ u ∈ s.preorder, Q u := by
  rw [preorder_eq_cons, List.forall_mem_cons, List.forall_mem_flatMap]

def Placed (P : Option Span → Prop) (t : Tree) : Prop := ∀ s ∈ t.preorder, P s.loc

theorem placed_iff {P : Option Span → Prop} {t : Tree} :
    t.Placed P ↔ P t.loc ∧ ∀ s ∈ t.children, s.Placed P :=
  forall_mem_preorder

def called? : Tree → Option String
  | .call f _ _ => f.calleeName?
  | _ => none

def callees (t : Tree) : List String := t.preorder.filterMap called?

theorem callees_eq_append (t : Tree) :
    t.callees = t.called?.toList ++ t.children.flatMap callees := by
  rw [callees, preorder_eq_cons, List.filterMap_cons, List.filterMap_flatMap]
  cases t.called? <;> rfl

theorem mem_callees {t : Tree} {n : String} :
    n ∈ t.callees ↔ ∃ args place place', .call (.name n place') args place ∈ t.preorder := by
  rw [callees, List.mem_filterMap]
  constructor
  · rintro ⟨s, hs, hn⟩
    cases s with
    | call f args place =>
      cases f with
      | name m place' =>
        cases hn
        exact ⟨args, place, place', hs⟩
      | _ => cases hn
    | _ => cases hn
  · rintro ⟨args, place, place', h⟩
    exact ⟨_, h, rfl⟩

end StructLang.Tree
