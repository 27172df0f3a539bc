import StructLang.Code.Lower
import StructLang.Proofs.Outcome

namespace StructLang

namespace Tree

mutual

def unplaced : Tree → Tree
  | .number text _ => .number text none
  | .string text _ => .string text none
  | .name n _ => .name n none
  | .binary op left right _ => .binary op left.unplaced right.unplaced none
  | .call callee args _ => .call callee.unplaced (unplacedAll args) none
  | .member object property _ => .member object.unplaced property none
  | .param n t _ => .param n t none
  | .alias n t _ => .alias n t none
  | .ret e _ => .ret e.unplaced none
  | .expr e ascribed _ => .expr e.unplaced ascribed none
  | .declare n params result _ => .declare n (unplacedAll params) result none
  | .define n params result body _ => .define n (unplacedAll params) result (unplacedAll body) none
  | .program ss file _ => .program (unplacedAll ss) file none
  | .unruled _ => .unruled none
  | .stray s => .stray s

def unplacedAll : List Tree → List Tree
  | [] => []
  | t :: ts => t.unplaced :: unplacedAll ts

end

variable {t e : Tree} {ts ss : List Tree} {n text file : String} {ascribed : Option Ty}

theorem unplaced_eq_number (h : t.unplaced = .number text none) : ∃ p, t = .number text p := by
  cases t with
  | number _ p =>
    cases h
    exact ⟨p, rfl⟩
  | _ => cases h

theorem unplaced_eq_name (h : t.unplaced = .name n none) : ∃ p, t = .name n p := by
  cases t with
  | name _ p =>
    cases h
    exact ⟨p, rfl⟩
  | _ => cases h

theorem unplaced_eq_call (h : t.unplaced = .call e ts none) :
    ∃ e' ts' p, t = .call e' ts' p ∧ e'.unplaced = e ∧ unplacedAll ts' = ts := by
  cases t with
  | call e' ts' p =>
    cases h
    exact ⟨e', ts', p, rfl, rfl, rfl⟩
  | _ => cases h

theorem unplaced_eq_expr (h : t.unplaced = .expr e ascribed none) :
    ∃ e' p, t = .expr e' ascribed p ∧ e'.unplaced = e := by
  cases t with
  | expr e' _ p =>
    cases h
    exact ⟨e', p, rfl, rfl⟩
  | _ => cases h

theorem unplaced_eq_program (h : t.unplaced = .program ss file none) :
    ∃ ss' p, t = .program ss' file p ∧ unplacedAll ss' = ss := by
  cases t with
  | program ss' _ p =>
    cases h
    exact ⟨ss', p, rfl, rfl⟩
  | _ => cases h

theorem unplacedAll_eq_singleton (h : unplacedAll ts = [e]) :
    ∃ e', ts = [e'] ∧ e'.unplaced = e := by
  match ts, h with
  | [e'], h => exact ⟨e', rfl, (List.cons.inj h).1⟩

@[simp] theorem calleeName?_unplaced (t : Tree) : t.unplaced.calleeName? = t.calleeName? := by
  cases t <;> rfl

end Tree

namespace Code

mutual

def unplaced : Code → Code
  | .literal v t _ => .literal v t none
  | .name n _ => .name n none
  | .binary op left right _ => .binary op left.unplaced right.unplaced none
  | .call callee args builtin _ => .call callee.unplaced (unplacedAll args) builtin none
  | .member object property _ => .member object.unplaced property none
  | .param n t _ => .param n t none
  | .expr e _ => .expr e.unplaced none
  | .ret e _ => .ret e.unplaced none
  | .alias n t _ => .alias n t none
  | .declare n params result builtin _ => .declare n (unplacedAll params) result builtin none
  | .define n params result body builtin _ =>
    .define n (unplacedAll params) result (unplacedAll body) builtin none
  | .program ss file _ => .program (unplacedAll ss) file none
  | .unruled _ => .unruled none
  | .nothing => .nothing

def unplacedAll : List Code → List Code
  | [] => []
  | c :: cs => c.unplaced :: unplacedAll cs

end

end Code

namespace Tree

mutual

theorem toOption_lower_unplaced (t : Tree) :
    t.unplaced.lower.toOption = t.lower.toOption.map Code.unplaced := by
  cases t with
  | number text loc =>
    rw [unplaced, lower, lower, toOption_bind, toOption_bind, Option.map_bind]
    rfl
  | binary op left right loc =>
    simp only [unplaced, lower, toOption_bind, toOption_lower_unplaced left,
      toOption_lower_unplaced right]
    cases left.lower <;> cases right.lower <;> rfl
  | call callee args loc =>
    simp only [unplaced, lower, toOption_bind, toOption_lower_unplaced callee,
      toOption_lowerAll_unplacedAll args, calleeName?_unplaced]
    cases callee.lower <;> cases lowerAll args <;> rfl
  | member object property loc =>
    simp only [unplaced, lower, toOption_bind, toOption_lower_unplaced object]
    cases object.lower <;> rfl
  | ret e loc =>
    simp only [unplaced, lower, toOption_bind, toOption_lower_unplaced e]
    cases e.lower <;> rfl
  | expr e ascribed loc =>
    simp only [unplaced, lower, toOption_bind, toOption_lower_unplaced e]
    cases e.lower <;> rfl
  | declare n params result loc =>
    simp only [unplaced, lower, toOption_bind, toOption_lowerAll_unplacedAll params]
    cases lowerAll params <;> rfl
  | define n params result body loc =>
    simp only [unplaced, lower, toOption_bind, toOption_lowerAll_unplacedAll params,
      toOption_lowerAll_unplacedAll body]
    cases lowerAll params <;> cases lowerAll body <;> rfl
  | program ss file loc =>
    simp only [unplaced, lower, toOption_bind, toOption_lowerAll_unplacedAll ss]
    cases lowerAll ss <;> rfl
  | _ => rfl

theorem toOption_lowerAll_unplacedAll (ts : List Tree) :
    (lowerAll (unplacedAll ts)).toOption = (lowerAll ts).toOption.map Code.unplacedAll := by
  cases ts with
  | nil => rfl
  | cons t ts =>
    simp only [unplacedAll, lowerAll, toOption_bind, toOption_lower_unplaced t,
      toOption_lowerAll_unplacedAll ts]
    cases t.lower <;> cases lowerAll ts <;> rfl

end

theorem exists_lower_of_unplaced {t : Tree} {c : Code} (h : t.unplaced.lower = .ok c) :
    ∃ c', t.lower = .ok c' ∧ c'.unplaced = c := by
  have hsome := toOption_lower_unplaced t
  rw [h] at hsome
  cases hl : t.lower with
  | error e =>
    rw [hl] at hsome
    cases hsome
  | ok c' =>
    rw [hl] at hsome
    exact ⟨c', rfl, (Option.some.inj hsome).symm⟩

end Tree

namespace MainFile

def span (column width : Nat) (line : Nat := 1) : Span :=
  ⟨"main.struct", line, column, line, column + width⟩

def place (column width : Nat) (line : Nat := 1) : Option Span := some (span column width line)

end MainFile

end StructLang
