import StructLang.Proofs.Outcome
import StructLang.Ty.Compare

namespace StructLang

theorem allM_of_ok {α ε : Type} {f : α → Except ε Bool} {g : α → Bool} {xs : List α}
    (h : ∀ x ∈ xs, f x = .ok (g x)) : xs.allM f = .ok (xs.all g) := by
  induction xs with
  | nil => rfl
  | cons x xs ih =>
    rw [List.allM, h x (by simp), ok_bind, List.all_cons, ih fun y hy => h y (by simp [hy])]
    cases g x <;> rfl

theorem anyM_of_ok {α ε : Type} {f : α → Except ε Bool} {g : α → Bool} {xs : List α}
    (h : ∀ x ∈ xs, f x = .ok (g x)) : xs.anyM f = .ok (xs.any g) := by
  induction xs with
  | nil => rfl
  | cons x xs ih =>
    rw [List.anyM, h x (by simp), ok_bind, List.any_cons, ih fun y hy => h y (by simp [hy])]
    cases g x <;> rfl

theorem allM_attach_of_ok {α ε : Type} {xs : List α} {f : {x // x ∈ xs} → Except ε Bool}
    {g : α → Bool} (h : ∀ x, f x = .ok (g x.1)) : xs.attach.allM f = .ok (xs.all g) := by
  rw [allM_of_ok (g := fun x => g x.1) fun x _ => h x]
  simp

theorem anyM_attach_of_ok {α ε : Type} {xs : List α} {f : {x // x ∈ xs} → Except ε Bool}
    {g : α → Bool} (h : ∀ x, f x = .ok (g x.1)) : xs.attach.anyM f = .ok (xs.any g) := by
  rw [anyM_of_ok (g := fun x => g x.1) fun x _ => h x]
  simp

namespace Ty

theorem size_lt_of_mem {m : Ty} {ms : List Ty} (h : m ∈ ms) : m.size < (union ms).size :=
  Nat.lt_succ_of_le (size_le_sizes h)

def agrees (a b : Ty) : Bool :=
  if a.isAny || b.isAny then true
  else match a, b with
    | .prim m, .prim n => m == n
    | .array s, .array t => s.agrees t
    | .union ms, .union ns =>
      ms.length == ns.length &&
        (ms.attach.all fun ⟨m, _hm⟩ => ns.attach.any fun ⟨n, _hn⟩ => m.agrees n) &&
        ns.attach.all fun ⟨n, _hn⟩ => ms.attach.any fun ⟨m, _hm⟩ => n.agrees m
    | _, _ => false
termination_by a.size + b.size
decreasing_by
  · simp only [size]
    omega
  · exact Nat.add_lt_add (size_lt_of_mem _hm) (size_lt_of_mem _hn)
  · rw [Nat.add_comm (size _)]
    exact Nat.add_lt_add (size_lt_of_mem _hm) (size_lt_of_mem _hn)

theorem agrees_union (ms ns : List Ty) :
    (union ms).agrees (union ns) = (ms.length == ns.length &&
      ms.all (fun m => ns.any m.agrees) && ns.all fun n => ms.any n.agrees) := by
  rw [agrees]
  simp [isAny]

theorem agrees_cases {a b : Ty} (h : a.agrees b) :
    a.isAny ∨ b.isAny ∨ (∃ n, a = .prim n ∧ b = .prim n) ∨
      (∃ s t, a = .array s ∧ b = .array t ∧ s.agrees t) ∨
      ∃ ms ns, a = .union ms ∧ b = .union ns ∧ ms.length = ns.length ∧
        (∀ m ∈ ms, ∃ n ∈ ns, m.agrees n) ∧ ∀ n ∈ ns, ∃ m ∈ ms, n.agrees m := by
  by_cases hany : a.isAny || b.isAny
  · obtain ha | hb := by simpa using hany
    · exact .inl ha
    · exact .inr (.inl hb)
  · rw [agrees.eq_def, if_neg hany] at h
    right; right
    split at h
    · rename_i m n
      exact .inl ⟨m, rfl, by rw [beq_iff_eq.1 h]⟩
    · rename_i s t
      exact .inr (.inl ⟨s, t, rfl, rfl, h⟩)
    · rename_i ms ns
      exact .inr (.inr ⟨ms, ns, rfl, rfl, by simpa [and_assoc] using h⟩)
    · cases h

def passes (value target : Ty) : Bool :=
  value.agrees target ||
    match value, target with
    | .union ms, .union ns => ms.attach.all fun ⟨m, _hm⟩ => m.passes (.union ns)
    | v, .union ns => ns.any v.agrees
    | _, _ => false
termination_by value.size
decreasing_by exact size_lt_of_mem _hm

theorem passes_cases {a b : Ty} (h : a.passes b) :
    a.agrees b ∨ ∃ ns, b = .union ns ∧
      ((∃ n ∈ ns, a.agrees n) ∨ ∃ ms, a = .union ms ∧ ∀ m ∈ ms, m.passes b) := by
  rw [passes.eq_def, Bool.or_eq_true] at h
  obtain h | h := h
  · exact .inl h
  · right
    split at h
    · rename_i ms ns
      exact ⟨ns, rfl, .inr ⟨ms, rfl, by simpa using h⟩⟩
    · rename_i ns _
      exact ⟨ns, rfl, .inl (by simpa using h)⟩
    · cases h

end Ty

namespace Aliases

open Ty

variable {Γ : Aliases}

theorem resolve_of_mem {a m : Ty} {ms : List Ty} (h : Γ.resolve a = .ok (.union ms))
    (hm : m ∈ ms) : Γ.resolve m = .ok m := by
  have hclosed : allClosed ms := isClosed_of_resolveFrom h
  exact resolveFrom_of_isClosed Γ [] m (allClosed_iff.1 hclosed m hm)

theorem resolve_element {a s : Ty} (h : Γ.resolve a = .ok (.array s)) : Γ.resolve s = .ok s := by
  have hclosed : (array s).isClosed := isClosed_of_resolveFrom h
  exact resolveFrom_of_isClosed Γ [] s hclosed

theorem same_of_resolve {a b x y : Ty} (ha : Γ.resolve a = .ok x) (hb : Γ.resolve b = .ok y) :
    Γ.same a b = .ok (x.agrees y) := by
  induction hn : x.size + y.size using Nat.strongRecOn generalizing a b x y with
  | ind n ih =>
    subst hn
    rw [same.eq_def]
    split
    · rename_i e h
      rw [ha] at h
      cases h
    · rename_i x' h
      cases ha.symm.trans h
      split
      · rename_i e h
        rw [hb] at h
        cases h
      · rename_i y' h
        cases hb.symm.trans h
        rw [agrees.eq_def]
        by_cases hany : x.isAny || y.isAny
        · rw [if_pos hany, if_pos hany]
        · rw [if_neg hany, if_neg hany]
          cases x with
          | prim m => cases y <;> rfl
          | array s =>
            cases y with
            | array t =>
              exact ih _ (by simp only [size]; omega) (resolve_element ha) (resolve_element hb) rfl
            | _ => rfl
          | union ms =>
            cases y with
            | union ns =>
              have hpair : ∀ m ∈ ms, ∀ n ∈ ns,
                  Γ.same m n = .ok (m.agrees n) ∧ Γ.same n m = .ok (n.agrees m) := by
                intro m hm n hn
                have hlt := Nat.add_lt_add (size_lt_of_mem hm) (size_lt_of_mem hn)
                have hm := resolve_of_mem ha hm
                have hn := resolve_of_mem hb hn
                exact ⟨ih _ hlt hm hn rfl, ih _ (by rwa [Nat.add_comm]) hn hm rfl⟩
              have hunion := agrees_union ms ns
              rw [agrees.eq_def, if_neg hany] at hunion
              change (if ms.length = ns.length then _ else _) = _
              rw [hunion, allM_attach_of_ok (g := fun m => ns.any m.agrees) fun m =>
                  anyM_attach_of_ok fun n => (hpair m.1 m.2 n.1 n.2).1,
                allM_attach_of_ok (g := fun n => ms.any n.agrees) fun n =>
                  anyM_attach_of_ok fun m => (hpair m.1 m.2 n.1 n.2).2, ok_bind]
              by_cases hlen : ms.length = ns.length
              · rw [if_pos hlen, hlen]
                cases ms.all fun m => ns.any m.agrees with
                | true => simp
                | false => simp
              · simp [hlen]
            | _ => rfl
          | _ => cases y <;> rfl

theorem fits_of_resolve {a b x y : Ty} (ha : Γ.resolve a = .ok x) (hb : Γ.resolve b = .ok y) :
    Γ.fits a b = .ok (x.passes y) := by
  induction hn : x.size using Nat.strongRecOn generalizing a b x y with
  | ind n ih =>
    subst hn
    have hx := resolveFrom_of_isClosed Γ [] x (isClosed_of_resolveFrom ha)
    have hy := resolveFrom_of_isClosed Γ [] y (isClosed_of_resolveFrom hb)
    rw [fits.eq_def]
    split
    · rename_i e h
      rw [ha] at h
      cases h
    · rename_i x' h
      cases ha.symm.trans h
      rw [hb]
      dsimp only
      rw [same_of_resolve hx hy, passes.eq_def]
      cases hagrees : x.agrees y with
      | true => rfl
      | false =>
        rw [Bool.false_or]
        cases y with
        | union ns =>
          have hmember : ns.anyM (fun n => Γ.same x n) = .ok (ns.any x.agrees) :=
            anyM_of_ok fun n hn => same_of_resolve hx (resolve_of_mem hb hn)
          cases x with
          | union ms =>
            change ms.attach.allM _ = _
            rw [allM_attach_of_ok (g := fun m => m.passes (.union ns)) fun m =>
              ih _ (size_lt_of_mem m.2) (resolve_of_mem ha m.2) hy rfl]
            simp
          | _ => exact hmember
        | _ => cases x <;> rfl

end Aliases

end StructLang
