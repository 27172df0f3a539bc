import StructLang.Proofs.Ty.Expansion

/-!
Comparison as a recursion that is cut off at a depth. Each step resolves its two types anew, and
they need not be smaller than those of the step before. It ends all the same: what resolution gives
has no alias left in it, so from the second step on resolution changes nothing, under any table.
-/

namespace StructLang

def Finishes {ε α : Type} (x : ExceptT ε Option α) (r : Except ε α) : Prop := x.run = some r

namespace Finishes

variable {ε α β : Type}

section

variable {x : ExceptT ε Option α} {f : α → ExceptT ε Option β}

theorem bind_error {e : ε} (hx : Finishes x (.error e)) : Finishes (x >>= f) (.error e) := by
  rw [Finishes, ExceptT.run_bind, hx]
  rfl

theorem bind_ok {a : α} {s : Except ε β} (hx : Finishes x (.ok a)) (hf : Finishes (f a) s) :
    Finishes (x >>= f) s := by
  rw [Finishes, ExceptT.run_bind, hx]
  exact hf

theorem bind {r : Except ε α} {g : α → Except ε β} (hx : Finishes x r)
    (hf : ∀ a, Finishes (f a) (g a)) : Finishes (x >>= f) (r >>= g) := by
  cases r with
  | error e => exact hx.bind_error
  | ok a => exact hx.bind_ok (hf a)

end

variable {f : α → ExceptT ε Option Bool}

theorem allM_map {g : β → Except ε Bool} {p : β → α} {ys : List β}
    (h : ∀ y ∈ ys, Finishes (f (p y)) (g y)) : Finishes ((ys.map p).allM f) (ys.allM g) := by
  induction ys with
  | nil => rfl
  | cons y ys ih =>
    obtain ⟨hy, hys⟩ := List.forall_mem_cons.1 h
    refine hy.bind fun v => ?_
    cases v with
    | true => exact ih hys
    | false => rfl

theorem anyM_map {g : β → Except ε Bool} {p : β → α} {ys : List β}
    (h : ∀ y ∈ ys, Finishes (f (p y)) (g y)) : Finishes ((ys.map p).anyM f) (ys.anyM g) := by
  induction ys with
  | nil => rfl
  | cons y ys ih =>
    obtain ⟨hy, hys⟩ := List.forall_mem_cons.1 h
    refine hy.bind fun v => ?_
    cases v with
    | true => rfl
    | false => exact ih hys

theorem allM_attach {xs : List α} {g : {x // x ∈ xs} → Except ε Bool}
    (h : ∀ x, Finishes (f x.1) (g x)) : Finishes (xs.allM f) (xs.attach.allM g) := by
  simpa using allM_map (p := Subtype.val) fun x (_ : x ∈ xs.attach) => h x

theorem anyM_attach {xs : List α} {g : {x // x ∈ xs} → Except ε Bool}
    (h : ∀ x, Finishes (f x.1) (g x)) : Finishes (xs.anyM f) (xs.attach.anyM g) := by
  simpa using anyM_map (p := Subtype.val) fun x (_ : x ∈ xs.attach) => h x

end Finishes

theorem liftM_ok_bind {ε α β : Type} (a : α) (f : α → ExceptT ε Option β) :
    (liftM (Except.ok a : Except ε α) >>= f) = f a := rfl

namespace Aliases

variable {Γ : Aliases} {a b x y : Ty}

/-- Whether two types agree, by comparisons that are less than so deep in one another. -/
def sameWithin (Γ : Aliases) : Nat → Ty → Ty → ExceptT AliasError Option Bool
  | 0, _, _ => ExceptT.mk none
  | n + 1, a, b => do
    let x ← Γ.resolve a
    let y ← Γ.resolve b
    if x.isAny || y.isAny then return true
    match x, y with
    | .prim m, .prim n => return m == n
    | .array s, .array t => sameWithin Γ n s t
    | .union ms, .union ns =>
      if ms.length = ns.length then
        if ← ms.allM fun s => ns.anyM fun t => sameWithin Γ n s t then
          ns.allM fun t => ms.anyM fun s => sameWithin Γ n t s
        else return false
      else return false
    | _, _ => return false

def fitsWithin (Γ : Aliases) : Nat → Ty → Ty → ExceptT AliasError Option Bool
  | 0, _, _ => ExceptT.mk none
  | n + 1, value, target => do
    let v ← Γ.resolve value
    let t ← Γ.resolve target
    if ← Γ.sameWithin n v t then return true
    match v, t with
    | .union ms, .union ns => ms.allM fun m => fitsWithin Γ n m (.union ns)
    | v, .union ns => ns.anyM fun s => Γ.sameWithin n v s
    | _, _ => return false

theorem weight_of_resolve (h : Γ.resolve a = .ok x) : Γ.weight a = x.size := by
  rw [weight, h]

theorem weight_resolved (h : Γ.resolve a = .ok x) : Γ.weight x = Γ.weight a := by
  rw [weight_of_resolve h, weight_of_isClosed (isClosed_of_resolveFrom h)]

theorem finishes_sameWithin {n : Nat} (h : Γ.weight a + Γ.weight b < n) :
    Finishes (Γ.sameWithin n a b) (Γ.same a b) := by
  induction n generalizing a b with
  | zero => exact absurd h (Nat.not_lt_zero _)
  | succ n ih =>
    fun_cases Γ.same a b with
    | case1 e ha =>
      rw [sameWithin, ha]
      rfl
    | case2 x ha e hb =>
      rw [sameWithin, ha, hb]
      rfl
    | case3 x ha y hb hany =>
      rw [sameWithin, ha, hb, liftM_ok_bind, liftM_ok_bind, if_pos hany]
      rfl
    | case4 k l ha hb _ _ hany =>
      rw [sameWithin, ha, hb, liftM_ok_bind, liftM_ok_bind, if_neg hany]
      rfl
    | case5 s t ha hb _ _ hany =>
      rw [sameWithin, ha, hb, liftM_ok_bind, liftM_ok_bind, if_neg hany]
      have hs := weight_element ha
      have ht := weight_element hb
      exact ih (by omega)
    | case6 ms ns ha hb hlen _ _ hany =>
      rw [sameWithin, ha, hb, liftM_ok_bind, liftM_ok_bind, if_neg hany]
      dsimp only
      rw [if_pos hlen]
      -- the members of the two unions are asked for in both orders
      have hlt : ∀ s ∈ ms, ∀ t ∈ ns, Γ.weight s + Γ.weight t < n := by
        intro s hs t ht
        have hs := weight_member ha hs
        have ht := weight_member hb ht
        omega
      have hleft : Finishes (ms.allM fun s => ns.anyM fun t => Γ.sameWithin n s t)
          (ms.attach.allM fun s => ns.attach.anyM fun t => Γ.same s.1 t.1) :=
        .allM_attach fun s => .anyM_attach fun t => ih (hlt s.1 s.2 t.1 t.2)
      have hright : Finishes (ns.allM fun t => ms.anyM fun s => Γ.sameWithin n t s)
          (ns.attach.allM fun t => ms.attach.anyM fun s => Γ.same t.1 s.1) :=
        .allM_attach fun t => .anyM_attach fun s => ih (Nat.add_comm _ _ ▸ hlt s.1 s.2 t.1 t.2)
      refine hleft.bind fun v => ?_
      cases v with
      | true => exact hright
      | false => rfl
    | case7 ms ns ha hb hlen _ _ hany =>
      rw [sameWithin, ha, hb, liftM_ok_bind, liftM_ok_bind, if_neg hany]
      dsimp only
      rw [if_neg hlen]
      rfl
    | case8 x ha y hb hany _ _ hprim harray hunion =>
      rw [sameWithin, ha, hb, liftM_ok_bind, liftM_ok_bind, if_neg hany]
      -- only types of unlike forms are left
      split
      · exact (hprim _ _ ha hb rfl rfl .rfl .rfl).elim
      · exact (harray _ _ ha hb rfl rfl .rfl .rfl).elim
      · exact (hunion _ _ ha hb rfl rfl .rfl .rfl).elim
      · rfl

theorem finishes_fitsWithin {n : Nat} (h : Γ.weight a + Γ.weight b + 1 < n) :
    Finishes (Γ.fitsWithin n a b) (Γ.fits a b) := by
  induction n generalizing a b with
  | zero => exact absurd h (Nat.not_lt_zero _)
  | succ n ih =>
    have hlt : Γ.weight a + Γ.weight b < n := Nat.lt_of_succ_lt_succ h
    have hrun {x y : Ty} (ha : Γ.resolve a = .ok x) (hb : Γ.resolve b = .ok y) :
        Finishes (Γ.sameWithin n x y) (Γ.same x y) :=
      finishes_sameWithin (by rwa [weight_resolved ha, weight_resolved hb])
    fun_cases Γ.fits a b with
    | case1 e ha =>
      rw [fitsWithin, ha]
      rfl
    | case2 x ha e hb =>
      rw [fitsWithin, ha, hb]
      rfl
    | case3 x ha y hb e hsame =>
      rw [fitsWithin, ha, hb]
      exact (hsame ▸ hrun ha hb).bind_error
    | case4 x ha y hb hsame =>
      rw [fitsWithin, ha, hb]
      exact (hsame ▸ hrun ha hb).bind_ok rfl
    | case5 ms ns ha _ hb hsame =>
      rw [fitsWithin, ha, hb]
      refine (hsame ▸ hrun ha hb).bind_ok (.allM_attach fun m => ih ?_)
      have hm := weight_member ha m.2
      have hns := weight_resolved hb
      omega
    | case6 v ns ha hv _ hb hsame =>
      rw [fitsWithin, ha, hb]
      refine (hsame ▸ hrun ha hb).bind_ok ?_
      have hmember : Finishes (ns.anyM fun t => Γ.sameWithin n v t)
          (ns.anyM fun t => Γ.same v t) := by
        have hfinishes : ∀ t ∈ ns, Finishes (Γ.sameWithin n v t) (Γ.same v t) := by
          intro t ht
          have hv := weight_resolved ha
          have ht := weight_member hb ht
          exact finishes_sameWithin (by omega)
        simpa using Finishes.anyM_map (p := id) hfinishes
      cases v with
      | union ms => exact (hv ms ha rfl .rfl).elim
      | _ => exact hmember
    | case7 x ha y hb hsame _ hy _ =>
      rw [fitsWithin, ha, hb]
      refine (hsame ▸ hrun ha hb).bind_ok ?_
      cases y with
      | union ns => exact (hy ns rfl).elim
      | _ => cases x <;> rfl

/-- Types that resolve are compared to an end and without a failure, as their resolved forms are by
plain recursion, at a depth that the sizes of these bound. No table is asked again: the resolved
forms are the same under each, and compare alike. -/
theorem resolved_once_suffices (ha : Γ.resolve a = .ok x) (hb : Γ.resolve b = .ok y) :
    (Γ.same a b = .ok (x.agrees y) ∧ Γ.fits a b = .ok (x.passes y)) ∧
      (∀ n, x.size + y.size + 1 < n → Finishes (Γ.sameWithin n a b) (.ok (x.agrees y)) ∧
        Finishes (Γ.fitsWithin n a b) (.ok (x.passes y))) ∧
      ∀ Δ : Aliases, Δ.resolve x = .ok x ∧ Δ.resolve y = .ok y ∧
        Δ.same x y = Γ.same a b ∧ Δ.fits x y = Γ.fits a b := by
  have hsame := same_of_resolve ha hb
  have hfits := fits_of_resolve ha hb
  refine ⟨⟨hsame, hfits⟩, fun n hn => ?_, fun Δ => ?_⟩
  · rw [← weight_of_resolve ha, ← weight_of_resolve hb] at hn
    rw [← hsame, ← hfits]
    exact ⟨finishes_sameWithin (Nat.lt_of_succ_lt hn), finishes_fitsWithin hn⟩
  · have hx := Δ.resolve_of_isClosed (isClosed_of_resolveFrom ha)
    have hy := Δ.resolve_of_isClosed (isClosed_of_resolveFrom hb)
    rw [hsame, hfits]
    exact ⟨hx, hy, same_of_resolve hx hy, fits_of_resolve hx hy⟩

theorem resolved_once_suffices_wider :
    let Γ : Aliases :=
      [("Key", .union [.alias "Id", .alias "Ids"]), ("Ids", .array (.alias "Id")), ("Id", .number)]
    let a : Ty := .alias "Key"
    let b : Ty := .union [.array (.alias "Id"), .string, .alias "Id"]
    let x : Ty := .union [.number, .array .number]
    let y : Ty := .union [.array .number, .string, .number]
    Γ.resolve a = .ok x ∧ Γ.resolve b = .ok y ∧
      (Γ.same a b = .ok false ∧ Γ.fits a b = .ok true) ∧
      (Finishes (Γ.sameWithin 11 a b) (.ok false) ∧ Finishes (Γ.fitsWithin 11 a b) (.ok true)) ∧
      Aliases.same [] x y = .ok false ∧ Aliases.fits [] x y = .ok true := by
  intro Γ a b x y
  have ha : Γ.resolve a = .ok x := by
    simp [Γ, a, x, resolve, resolveFrom, resolveAll, Table.get?, Ty.number]
  have hb : Γ.resolve b = .ok y := by
    simp [Γ, b, y, resolve, resolveFrom, resolveAll, Table.get?, Ty.number, Ty.string]
  have hagrees : x.agrees y = false := by simp [x, y, Ty.agrees_union]
  have hpasses : x.passes y = true := by
    simp [x, y, Ty.passes, Ty.agrees, Ty.isAny, Ty.number, Ty.string]
  have hresult := resolved_once_suffices ha hb
  rw [hagrees, hpasses] at hresult
  obtain ⟨⟨hsame, hfits⟩, hfinishes, hevery⟩ := hresult
  obtain ⟨-, -, hsame', hfits'⟩ := hevery []
  exact ⟨ha, hb, ⟨hsame, hfits⟩, hfinishes 11 (by decide), hsame'.trans hsame, hfits'.trans hfits⟩

end Aliases

end StructLang
