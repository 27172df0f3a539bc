import Mathlib.Logic.Relation
import StructLang.Proofs.Ty.Agreement

namespace StructLang

namespace Ty

mutual

def names : Ty → List String
  | .alias n => [n]
  | .array e => e.names
  | .union ms => namesAll ms
  | _ => []

def namesAll : List Ty → List String
  | [] => []
  | t :: ts => t.names ++ namesAll ts

end

theorem mem_namesAll {n : String} {ts : List Ty} : n ∈ namesAll ts ↔ ∃ t ∈ ts, n ∈ t.names := by
  induction ts with
  | nil => simp [namesAll]
  | cons t ts ih => simp [namesAll, ih]

end Ty

namespace Aliases

variable {Γ Δ : Aliases}

theorem same_eq (Γ : Aliases) (a b : Ty) :
    Γ.same a b = do return (← Γ.resolve a).agrees (← Γ.resolve b) := by
  cases ha : Γ.resolve a with
  | error e =>
    rw [same.eq_def]
    split
    · rename_i e' h
      cases ha.symm.trans h
      rfl
    · rename_i x h
      cases ha.symm.trans h
  | ok x =>
    cases hb : Γ.resolve b with
    | error e =>
      rw [same.eq_def]
      split
      · rename_i e' h
        cases ha.symm.trans h
      · split
        · rename_i e' h
          cases hb.symm.trans h
          rfl
        · rename_i y h
          cases hb.symm.trans h
    | ok y => rw [same_of_resolve ha hb, ok_bind, ok_bind, pure_eq_ok]

theorem fits_eq (Γ : Aliases) (a b : Ty) :
    Γ.fits a b = do return (← Γ.resolve a).passes (← Γ.resolve b) := by
  cases ha : Γ.resolve a with
  | error e =>
    rw [fits.eq_def]
    split
    · rename_i e' h
      cases ha.symm.trans h
      rfl
    · rename_i x h
      cases ha.symm.trans h
  | ok x =>
    cases hb : Γ.resolve b with
    | error e =>
      rw [fits.eq_def]
      split
      · rename_i e' h
        cases ha.symm.trans h
      · rw [hb]
        rfl
    | ok y => rw [fits_of_resolve ha hb, ok_bind, ok_bind, pure_eq_ok]

mutual

theorem resolveFrom_congr (h : Γ.get? = Δ.get?) (path : List String) (t : Ty) :
    resolveFrom Γ path t = resolveFrom Δ path t := by
  match t with
  | .prim name => rw [resolveFrom, resolveFrom]
  | .alias name =>
    rw [resolveFrom, resolveFrom]
    split
    · rfl
    · rename_i hpath
      have hname := congrFun h name
      split
      · rename_i hΓ
        split
        · rfl
        · rename_i d hΔ
          rw [hΓ, hΔ] at hname
          cases hname
      · rename_i d hΓ
        split
        · rename_i hΔ
          rw [hΓ, hΔ] at hname
          cases hname
        · rename_i d' hΔ
          rw [hΓ, hΔ] at hname
          cases hname
          exact resolveFrom_congr h _ d
  | .array e => rw [resolveFrom, resolveFrom, resolveFrom_congr h path e]
  | .union ms => rw [resolveFrom, resolveFrom, resolveAll_congr h path ms]
  | .foreign => rw [resolveFrom, resolveFrom]
termination_by (Γ.pending path, sizeOf t)
decreasing_by
  · exact Prod.Lex.left _ _ (pending_lt (by assumption) (by assumption))
  · apply Prod.Lex.right
    simp
  · apply Prod.Lex.right
    simp

theorem resolveAll_congr (h : Γ.get? = Δ.get?) (path : List String) (ts : List Ty) :
    resolveAll Γ path ts = resolveAll Δ path ts := by
  match ts with
  | [] => rw [resolveAll, resolveAll]
  | t :: ts => rw [resolveAll, resolveAll, resolveFrom_congr h path t, resolveAll_congr h path ts]
termination_by (Γ.pending path, sizeOf ts)
decreasing_by
  · apply Prod.Lex.right
    simp only [List.cons.sizeOf_spec]
    omega
  · apply Prod.Lex.right
    simp only [List.cons.sizeOf_spec]
    omega

end

theorem resolve_congr (h : Γ.get? = Δ.get?) (t : Ty) : Γ.resolve t = Δ.resolve t :=
  resolveFrom_congr h [] t

def Resolves (Γ : Aliases) (t : Ty) : Prop := ∃ r, Γ.resolve t = .ok r

def expansion (Γ : Aliases) (t : Ty) : Ty := (Γ.resolve t).toOption.getD t

theorem Resolves.resolve_eq {t : Ty} (h : Γ.Resolves t) : Γ.resolve t = .ok (Γ.expansion t) := by
  obtain ⟨r, hr⟩ := h
  rw [expansion, hr]
  rfl

theorem Resolves.isClosed_expansion {t : Ty} (h : Γ.Resolves t) : (Γ.expansion t).isClosed :=
  isClosed_of_resolveFrom h.resolve_eq

theorem resolve_of_isClosed (Γ : Aliases) {t : Ty} (h : t.isClosed) : Γ.resolve t = .ok t :=
  resolveFrom_of_isClosed Γ [] t h

theorem expansion_of_isClosed (Γ : Aliases) {t : Ty} (h : t.isClosed) : Γ.expansion t = t := by
  rw [expansion, Γ.resolve_of_isClosed h]
  rfl

def Uses (Γ : Aliases) (n m : String) : Prop := ∃ d, Γ.get? n = some d ∧ m ∈ d.names

variable {path : List String} {n m : String} {t r : Ty}

theorem resolveFrom_alias (h : resolveFrom Γ path (.alias n) = .ok r) :
    n ∉ path ∧ ∃ d, Γ.get? n = some d ∧ resolveFrom Γ (path ++ [n]) d = .ok r := by
  rw [resolveFrom] at h
  split at h
  · cases h
  · rename_i hpath
    split at h
    · cases h
    · rename_i d hd
      exact ⟨hpath, d, hd, h⟩

theorem exists_of_resolveAll {ts rs : List Ty} (h : resolveAll Γ path ts = .ok rs) (ht : t ∈ ts) :
    ∃ r, resolveFrom Γ path t = .ok r := by
  induction ts generalizing rs with
  | nil => cases ht
  | cons s ts ih =>
    rw [resolveAll] at h
    obtain ⟨r, hr, h⟩ := bind_eq_ok.1 h
    obtain ⟨rs, hrs, _⟩ := bind_eq_ok.1 h
    obtain rfl | ht := List.mem_cons.1 ht
    · exact ⟨r, hr⟩
    · exact ih hrs ht

theorem exists_of_mem_names {t r : Ty} (h : resolveFrom Γ path t = .ok r) (hn : n ∈ t.names) :
    ∃ r, resolveFrom Γ path (.alias n) = .ok r := by
  match t with
  | .alias name =>
    rw [Ty.names, List.mem_singleton] at hn
    exact ⟨r, hn ▸ h⟩
  | .array e =>
    rw [resolveFrom] at h
    obtain ⟨s, hs, _⟩ := bind_eq_ok.1 h
    exact exists_of_mem_names hs hn
  | .union ms =>
    rw [resolveFrom] at h
    obtain ⟨rs, hrs, _⟩ := bind_eq_ok.1 h
    obtain ⟨t, ht, hn⟩ := Ty.mem_namesAll.1 hn
    obtain ⟨s, hs⟩ := exists_of_resolveAll hrs ht
    exact exists_of_mem_names hs hn
  | .prim _ | .foreign => cases hn

theorem exists_of_transGen (h : resolveFrom Γ path (.alias n) = .ok r)
    (hm : Relation.TransGen Γ.Uses n m) :
    ∃ path' r', n ∈ path' ∧ resolveFrom Γ path' (.alias m) = .ok r' := by
  induction hm with
  | single huses =>
    obtain ⟨d, hd, hm⟩ := huses
    obtain ⟨_, d', hd', hr⟩ := resolveFrom_alias h
    cases hd.symm.trans hd'
    obtain ⟨r', hr'⟩ := exists_of_mem_names hr hm
    exact ⟨path ++ [n], r', by simp, hr'⟩
  | @tail l m _ huses ih =>
    obtain ⟨path', r', hn, hr'⟩ := ih
    obtain ⟨d, hd, hm⟩ := huses
    obtain ⟨_, d', hd', hr⟩ := resolveFrom_alias hr'
    cases hd.symm.trans hd'
    obtain ⟨s, hs⟩ := exists_of_mem_names hr hm
    exact ⟨path' ++ [l], s, by simp [hn], hs⟩

/-- No name that a type leads to lacks a definition or leads back to itself. -/
theorem Resolves.sound (h : Γ.Resolves t) (hn : n ∈ t.names)
    (hm : Relation.ReflTransGen Γ.Uses n m) :
    (∃ d, Γ.get? m = some d) ∧ ¬Relation.TransGen Γ.Uses m m := by
  obtain ⟨r, hr⟩ := h
  obtain ⟨s, hs⟩ := exists_of_mem_names hr hn
  have hreached : ∃ path r', resolveFrom Γ path (.alias m) = .ok r' := by
    obtain rfl | htrans := Relation.reflTransGen_iff_eq_or_transGen.1 hm
    · exact ⟨[], s, hs⟩
    · obtain ⟨path, r', _, hr'⟩ := exists_of_transGen hs htrans
      exact ⟨path, r', hr'⟩
  obtain ⟨path, r', hr'⟩ := hreached
  constructor
  · obtain ⟨_, d, hd, _⟩ := resolveFrom_alias hr'
    exact ⟨d, hd⟩
  · intro hcycle
    obtain ⟨path', r'', hmem, hr''⟩ := exists_of_transGen hr' hcycle
    exact (resolveFrom_alias hr'').1 hmem

end Aliases

end StructLang
