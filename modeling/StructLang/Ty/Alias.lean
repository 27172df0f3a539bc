import StructLang.Table
import StructLang.Ty.Basic

/-!
Type aliases. To resolve a type is to replace every name in it by its definition, all the way down;
the names passed on the way are remembered, so a definition that leads back to itself is found out.
A resolved type has no name left in it, and resolving it again gives it back.
-/

namespace StructLang

abbrev Aliases := Table Ty

inductive AliasError where
  | unknown (name : String)
  /-- The names from the first visit of the repeated one to its second. -/
  | cyclic (chain : List String)
  | unsupported (kind : String)
  deriving DecidableEq, Repr

namespace Ty

mutual

def isClosed : Ty → Bool
  | .prim _ => true
  | .array e => e.isClosed
  | .union ms => allClosed ms
  | .alias _ => false
  | .foreign => false

def allClosed : List Ty → Bool
  | [] => true
  | t :: ts => t.isClosed && allClosed ts

end

theorem allClosed_iff {ts : List Ty} : allClosed ts ↔ ∀ t ∈ ts, t.isClosed := by
  induction ts with
  | nil => simp [allClosed]
  | cons t ts ih => simp [allClosed, ih]

end Ty

namespace Aliases

def pending (Γ : Aliases) (path : List String) : Nat := Γ.countP fun e => e.1 ∉ path

theorem pending_le (Γ : Aliases) (path : List String) (name : String) :
    Γ.pending (path ++ [name]) ≤ Γ.pending path := by
  apply List.countP_mono_left
  intro e _ h
  simp at h ⊢
  exact h.1

theorem pending_lt {Γ : Aliases} {path : List String} {name : String} {d : Ty}
    (hp : name ∉ path) (h : Γ.get? name = some d) :
    Γ.pending (path ++ [name]) < Γ.pending path := by
  induction Γ with
  | nil => simp [Table.get?] at h
  | cons e Γ ih =>
    have hle := pending_le Γ path name
    by_cases hn : e.1 = name
    · have hout : decide (e.1 ∉ path ++ [name]) = false := by simp [hn]
      have hin : decide (e.1 ∉ path) = true := by simp [hn, hp]
      simp only [pending, List.countP_cons, hout, hin, Bool.false_eq_true, ↓reduceIte] at hle ⊢
      omega
    · have hlt := ih (by simpa [Table.get?, hn] using h)
      have hsame : decide (e.1 ∉ path ++ [name]) = decide (e.1 ∉ path) := by simp [hn]
      simp only [pending, List.countP_cons, hsame] at hlt ⊢
      omega

mutual

/-- Resolution inside the definitions of the names in `path`. -/
def resolveFrom (Γ : Aliases) (path : List String) : Ty → Except AliasError Ty
  | .prim name => .ok (.prim name)
  | .alias name =>
    if _hp : name ∈ path then .error (.cyclic (path.dropWhile (· ≠ name) ++ [name]))
    else match _h : Γ.get? name with
      | none => .error (.unknown name)
      | some d => resolveFrom Γ (path ++ [name]) d
  | .array e => do return .array (← resolveFrom Γ path e)
  | .union ms => do return .union (← resolveAll Γ path ms)
  | .foreign => .error (.unsupported "OpaqueType")
termination_by t => (Γ.pending path, sizeOf t)
decreasing_by
  · exact Prod.Lex.left _ _ (pending_lt _hp _h)
  · apply Prod.Lex.right
    simp
  · apply Prod.Lex.right
    simp

def resolveAll (Γ : Aliases) (path : List String) : List Ty → Except AliasError (List Ty)
  | [] => .ok []
  | t :: ts => do return (← resolveFrom Γ path t) :: (← resolveAll Γ path ts)
termination_by ts => (Γ.pending path, sizeOf ts)
decreasing_by
  · apply Prod.Lex.right
    simp only [List.cons.sizeOf_spec]
    omega
  · apply Prod.Lex.right
    simp only [List.cons.sizeOf_spec]
    omega

end

def resolve (Γ : Aliases) (t : Ty) : Except AliasError Ty := resolveFrom Γ [] t

mutual

theorem isClosed_of_resolveFrom {Γ : Aliases} {path : List String} {t r : Ty}
    (h : resolveFrom Γ path t = .ok r) : r.isClosed := by
  match t with
  | .prim name =>
    simp only [resolveFrom, Except.ok.injEq] at h
    simp [← h, Ty.isClosed]
  | .alias name =>
    rw [resolveFrom] at h
    split at h
    · cases h
    · split at h
      · cases h
      · exact isClosed_of_resolveFrom h
  | .array e =>
    rw [resolveFrom] at h
    cases he : resolveFrom Γ path e with
    | error x => simp [he, bind, Except.bind] at h
    | ok s =>
      simp only [he, bind, Except.bind, pure, Except.pure, Except.ok.injEq] at h
      simpa [← h, Ty.isClosed] using isClosed_of_resolveFrom he
  | .union ms =>
    rw [resolveFrom] at h
    cases hm : resolveAll Γ path ms with
    | error x => simp [hm, bind, Except.bind] at h
    | ok rs =>
      simp only [hm, bind, Except.bind, pure, Except.pure, Except.ok.injEq] at h
      simpa [← h, Ty.isClosed] using allClosed_of_resolveAll hm
  | .foreign => simp [resolveFrom] at h
termination_by (Γ.pending path, sizeOf t)
decreasing_by
  · rename_i hp _ _ hd _
    exact Prod.Lex.left _ _ (pending_lt hp hd)
  · apply Prod.Lex.right
    simp
  · apply Prod.Lex.right
    simp

theorem allClosed_of_resolveAll {Γ : Aliases} {path : List String} {ts rs : List Ty}
    (h : resolveAll Γ path ts = .ok rs) : Ty.allClosed rs := by
  match ts with
  | [] =>
    simp only [resolveAll, Except.ok.injEq] at h
    simp [← h, Ty.allClosed]
  | t :: ts =>
    rw [resolveAll] at h
    cases ht : resolveFrom Γ path t with
    | error x => simp [ht, bind, Except.bind] at h
    | ok s =>
      cases hs : resolveAll Γ path ts with
      | error x => simp [ht, hs, bind, Except.bind] at h
      | ok ss =>
        simp only [ht, hs, bind, Except.bind, pure, Except.pure, Except.ok.injEq] at h
        simp [← h, Ty.allClosed, isClosed_of_resolveFrom ht, allClosed_of_resolveAll hs]
termination_by (Γ.pending path, sizeOf ts)
decreasing_by
  · apply Prod.Lex.right
    simp only [List.cons.sizeOf_spec]
    omega
  · apply Prod.Lex.right
    simp only [List.cons.sizeOf_spec]
    omega

end

mutual

theorem resolveFrom_of_isClosed (Γ : Aliases) (path : List String) (t : Ty) (h : t.isClosed) :
    resolveFrom Γ path t = .ok t := by
  match t with
  | .prim name => simp [resolveFrom]
  | .array e =>
    have he := resolveFrom_of_isClosed Γ path e (by simpa [Ty.isClosed] using h)
    simp [resolveFrom, he, bind, Except.bind, pure, Except.pure]
  | .union ms =>
    have hm := resolveAll_of_allClosed Γ path ms (by simpa [Ty.isClosed] using h)
    simp [resolveFrom, hm, bind, Except.bind, pure, Except.pure]
  | .alias name => simp [Ty.isClosed] at h
  | .foreign => simp [Ty.isClosed] at h

theorem resolveAll_of_allClosed (Γ : Aliases) (path : List String) (ts : List Ty)
    (h : Ty.allClosed ts) : resolveAll Γ path ts = .ok ts := by
  match ts with
  | [] => simp [resolveAll]
  | t :: ts =>
    simp only [Ty.allClosed, Bool.and_eq_true] at h
    have ht := resolveFrom_of_isClosed Γ path t h.1
    have hs := resolveAll_of_allClosed Γ path ts h.2
    simp [resolveAll, ht, hs, bind, Except.bind, pure, Except.pure]

end

end Aliases

end StructLang
