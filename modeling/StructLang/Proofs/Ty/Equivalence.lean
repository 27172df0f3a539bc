import Mathlib.Data.List.Perm.Basic
import StructLang.Proofs.Ty.Denotation
import StructLang.Proofs.Ty.Expansion

namespace StructLang

namespace Ty

mutual

inductive Reorders : Ty → Ty → Prop
  | refl : Reorders t t
  | array : Reorders s t → Reorders (.array s) (.array t)
  | union : ReordersAll ms ns → ns.Perm ks → Reorders (.union ms) (.union ks)

inductive ReordersAll : List Ty → List Ty → Prop
  | nil : ReordersAll [] []
  | cons : Reorders t s → ReordersAll ts ss → ReordersAll (t :: ts) (s :: ss)

end

variable {a b c : Ty}

theorem agrees_of_isAny (h : a.isAny ∨ b.isAny) : a.agrees b := by
  rw [agrees.eq_def, if_pos (by simpa using h)]

theorem agrees_prim (name : String) : (prim name).agrees (prim name) := by
  rw [agrees]
  simp

theorem agrees_array (h : a.agrees b) : (array a).agrees (array b) := by
  rw [agrees]
  simpa [isAny] using h

theorem agrees_of_covers {ms ns : List Ty} (hlen : ms.length = ns.length)
    (hleft : ∀ m ∈ ms, ∃ n ∈ ns, m.agrees n) (hright : ∀ n ∈ ns, ∃ m ∈ ms, n.agrees m) :
    (union ms).agrees (union ns) := by
  rw [agrees_union]
  simpa [and_assoc] using ⟨hlen, hleft, hright⟩

theorem agrees_refl (h : a.isClosed) : a.agrees a := by
  induction hn : a.size using Nat.strongRecOn generalizing a with
  | ind n ih =>
    subst hn
    cases a with
    | prim name => exact agrees_prim name
    | array e => exact agrees_array (ih _ (Nat.lt_succ_self _) h rfl)
    | union ms =>
      have hms : ∀ m ∈ ms, ∃ n ∈ ms, m.agrees n := fun m hm =>
        ⟨m, hm, ih _ (size_lt_of_mem hm) (allClosed_iff.1 h m hm) rfl⟩
      exact agrees_of_covers rfl hms hms
    | _ => cases h

theorem agrees_symm (h : a.agrees b) : b.agrees a := by
  induction hn : a.size using Nat.strongRecOn generalizing a b with
  | ind n ih =>
    subst hn
    obtain h | h | ⟨name, rfl, rfl⟩ | ⟨s, t, rfl, rfl, hst⟩ |
      ⟨ms, ns, rfl, rfl, hlen, hleft, hright⟩ := agrees_cases h
    · exact agrees_of_isAny (.inr h)
    · exact agrees_of_isAny (.inl h)
    · exact agrees_prim name
    · exact agrees_array (ih _ (Nat.lt_succ_self _) hst rfl)
    · -- each of the two unions covers the other already
      exact agrees_of_covers hlen.symm hright hleft

theorem agrees_comm (a b : Ty) : a.agrees b = b.agrees a :=
  Bool.eq_iff_iff.2 ⟨agrees_symm, agrees_symm⟩

theorem agrees_cases_of_isAnyFree (h : a.agrees b) (ha : a.isAnyFree) (hb : b.isAnyFree) :
    (∃ n, a = .prim n ∧ b = .prim n) ∨ (∃ s t, a = .array s ∧ b = .array t ∧ s.agrees t) ∨
      ∃ ms ns, a = .union ms ∧ b = .union ns ∧ ms.length = ns.length ∧
        (∀ m ∈ ms, ∃ n ∈ ns, m.agrees n) ∧ ∀ n ∈ ns, ∃ m ∈ ms, n.agrees m := by
  simpa [isAny_of_isAnyFree ha, isAny_of_isAnyFree hb] using agrees_cases h

theorem agrees_trans (hab : a.agrees b) (hbc : b.agrees c) (ha : a.isAnyFree) (hb : b.isAnyFree)
    (hc : c.isAnyFree) : a.agrees c := by
  induction hn : a.size using Nat.strongRecOn generalizing a b c with
  | ind n ih =>
    subst hn
    obtain ⟨name, rfl, rfl⟩ | ⟨s, t, rfl, rfl, hst⟩ | ⟨ms, ns, rfl, rfl, hlen, hmn, hnm⟩ :=
      agrees_cases_of_isAnyFree hab ha hb
    · exact hbc
    · obtain ⟨_, ht, -⟩ | ⟨_, u, ht, rfl, htu⟩ | ⟨_, _, ht, -⟩ :=
        agrees_cases_of_isAnyFree hbc hb hc
      · cases ht
      · cases ht
        exact agrees_array (ih _ (Nat.lt_succ_self _) hst htu ha hb hc rfl)
      · cases ht
    · obtain ⟨_, ht, -⟩ | ⟨_, _, ht, -⟩ | ⟨_, ks, ht, rfl, hlen', hnk, hkn⟩ :=
        agrees_cases_of_isAnyFree hbc hb hc
      · cases ht
      · cases ht
      · cases ht
        have hms := allAnyFree_iff.1 ha
        have hns := allAnyFree_iff.1 hb
        have hks := allAnyFree_iff.1 hc
        have htrans {m n k : Ty} (hm : m ∈ ms) (hn : n ∈ ns) (hk : k ∈ ks) (hmn : m.agrees n)
            (hnk : n.agrees k) : m.agrees k :=
          ih _ (size_lt_of_mem hm) hmn hnk (hms m hm) (hns n hn) (hks k hk) rfl
        refine agrees_of_covers (hlen.trans hlen') (fun m hm => ?_) fun k hk => ?_
        · obtain ⟨n, hn, hmn⟩ := hmn m hm
          obtain ⟨k, hk, hnk⟩ := hnk n hn
          exact ⟨k, hk, htrans hm hn hk hmn hnk⟩
        · -- the way back is the way there, by symmetry
          obtain ⟨n, hn, hkn⟩ := hkn k hk
          obtain ⟨m, hm, hnm⟩ := hnm n hn
          exact ⟨m, hm, agrees_symm (htrans hm hn hk (agrees_symm hnm) (agrees_symm hkn))⟩

mutual

theorem Reorders.agrees {a b : Ty} (h : a.Reorders b) (ha : a.isClosed) : a.agrees b := by
  match h with
  | .refl => exact agrees_refl ha
  | .array h => exact agrees_array (h.agrees ha)
  | .union h hperm =>
    have hall := h.agrees (allClosed_iff.1 ha)
    obtain ⟨hleft, hright⟩ := covers_of_forall₂ hall
    refine agrees_of_covers (hall.length_eq.trans hperm.length_eq) (fun m hm => ?_) fun k hk => ?_
    · obtain ⟨n, hn, hmn⟩ := hleft m hm
      exact ⟨n, hperm.mem_iff.1 hn, hmn⟩
    · obtain ⟨m, hm, hmk⟩ := hright k (hperm.mem_iff.2 hk)
      exact ⟨m, hm, agrees_symm hmk⟩

theorem ReordersAll.agrees {ms ns : List Ty} (h : ReordersAll ms ns) (hms : ∀ m ∈ ms, m.isClosed) :
    List.Forall₂ (fun m n => m.agrees n) ms ns := by
  match h with
  | .nil => exact .nil
  | .cons h hs =>
    rw [List.forall_mem_cons] at hms
    exact .cons (h.agrees hms.1) (hs.agrees hms.2)

end

end Ty

namespace Aliases

open Ty

variable {Γ : Aliases} {path : List String}

theorem resolveAll_eq_ok {ts rs : List Ty} :
    resolveAll Γ path ts = .ok rs ↔
      List.Forall₂ (fun t r => resolveFrom Γ path t = .ok r) ts rs := by
  induction ts generalizing rs with
  | nil =>
    rw [resolveAll, List.forall₂_nil_left_iff]
    simp [eq_comm]
  | cons t ts ih =>
    rw [resolveAll, List.forall₂_cons_left_iff]
    simp only [bind_eq_ok, ih, pure_eq_ok, Except.ok.injEq]
    constructor
    · rintro ⟨r, hr, rs, hrs, rfl⟩
      exact ⟨r, rs, hr, hrs, rfl⟩
    · rintro ⟨r, rs, hr, hrs, rfl⟩
      exact ⟨r, hr, rs, hrs, rfl⟩

mutual

theorem resolveFrom_reorders {a b x : Ty} (h : a.Reorders b) (ha : resolveFrom Γ path a = .ok x) :
    ∃ y, resolveFrom Γ path b = .ok y ∧ x.Reorders y := by
  match h with
  | .refl => exact ⟨x, ha, .refl⟩
  | .array h =>
    rw [resolveFrom] at ha
    obtain ⟨s, hs, ha⟩ := bind_eq_ok.1 ha
    cases ha
    obtain ⟨t, ht, hst⟩ := resolveFrom_reorders h hs
    exact ⟨.array t, by rw [resolveFrom, ht, ok_bind, pure_eq_ok], .array hst⟩
  | .union h hperm =>
    rw [resolveFrom] at ha
    obtain ⟨ms, hms, ha⟩ := bind_eq_ok.1 ha
    cases ha
    obtain ⟨ns, hns, hmn⟩ := resolveAll_reorders h hms
    obtain ⟨ks, hks, hkn⟩ := List.perm_comp_forall₂ hperm.symm (resolveAll_eq_ok.1 hns)
    have hresolve := resolveAll_eq_ok.2 hks
    exact ⟨.union ks, by rw [resolveFrom, hresolve, ok_bind, pure_eq_ok], .union hmn hkn.symm⟩

theorem resolveAll_reorders {ms ns xs : List Ty} (h : ReordersAll ms ns)
    (hms : resolveAll Γ path ms = .ok xs) :
    ∃ ys, resolveAll Γ path ns = .ok ys ∧ ReordersAll xs ys := by
  match h with
  | .nil => exact ⟨xs, hms, by cases resolveAll_eq_ok.1 hms; exact .nil⟩
  | .cons h hs =>
    rw [resolveAll] at hms
    obtain ⟨x, hx, hms⟩ := bind_eq_ok.1 hms
    obtain ⟨xs, hxs, hms⟩ := bind_eq_ok.1 hms
    cases hms
    obtain ⟨y, hy, hxy⟩ := resolveFrom_reorders h hx
    obtain ⟨ys, hys, hxys⟩ := resolveAll_reorders hs hxs
    exact ⟨y :: ys, by rw [resolveAll, hy, hys, ok_bind, ok_bind, pure_eq_ok], .cons hxy hxys⟩

end

/-- Agreement is reflexive and symmetric, does not see how the members of unions are ordered, and is
transitive away from the wildcard. -/
theorem same_equivalence {a b c x y z : Ty} (ha : Γ.resolve a = .ok x) (hb : Γ.resolve b = .ok y)
    (hc : Γ.resolve c = .ok z) :
    Γ.same a a = .ok true ∧
      (∃ v, Γ.same a b = .ok v ∧ Γ.same b a = .ok v) ∧
      (∀ a', a.Reorders a' → Γ.same a a' = .ok true) ∧
      (x.isAnyFree → y.isAnyFree → z.isAnyFree → Γ.same a b = .ok true → Γ.same b c = .ok true →
        Γ.same a c = .ok true) := by
  have hx : x.isClosed := isClosed_of_resolveFrom ha
  refine ⟨?_, ?_, fun a' h => ?_, fun hxfree hyfree hzfree hab hbc => ?_⟩
  · rw [same_of_resolve ha ha, agrees_refl hx]
  · exact ⟨x.agrees y, same_of_resolve ha hb, by rw [same_of_resolve hb ha, agrees_comm]⟩
  · obtain ⟨x', ha', hreorders⟩ := resolveFrom_reorders h ha
    rw [same_of_resolve ha ha', hreorders.agrees hx]
  · rw [same_of_resolve ha hb, Except.ok.injEq] at hab
    rw [same_of_resolve hb hc, Except.ok.injEq] at hbc
    rw [same_of_resolve ha hc, agrees_trans hab hbc hxfree hyfree hzfree]

theorem same_equivalence_orders :
    let Γ : Aliases := [("Id", .number)]
    let a : Ty := .union [.array (.union [.alias "Id", .string]), .string]
    let b : Ty := .union [.array (.union [.string, .alias "Id"]), .string]
    let c : Ty := .union [.string, .array (.union [.string, .alias "Id"])]
    let x : Ty := .union [.array (.union [.number, .string]), .string]
    let y : Ty := .union [.array (.union [.string, .number]), .string]
    let z : Ty := .union [.string, .array (.union [.string, .number])]
    (Γ.resolve a = .ok x ∧ Γ.resolve b = .ok y ∧ Γ.resolve c = .ok z) ∧
      (x.isAnyFree ∧ y.isAnyFree ∧ z.isAnyFree) ∧ a.Reorders b ∧ b.Reorders c ∧
      Γ.same a a = .ok true ∧ (∃ v, Γ.same a c = .ok v ∧ Γ.same c a = .ok v) ∧
      Γ.same a b = .ok true ∧ Γ.same b c = .ok true ∧ Γ.same a c = .ok true := by
  intro Γ a b c x y z
  have ha : Γ.resolve a = .ok x := by
    simp [Γ, a, x, resolve, resolveFrom, resolveAll, Table.get?, Ty.number, Ty.string]
  have hb : Γ.resolve b = .ok y := by
    simp [Γ, b, y, resolve, resolveFrom, resolveAll, Table.get?, Ty.number, Ty.string]
  have hc : Γ.resolve c = .ok z := by
    simp [Γ, c, z, resolve, resolveFrom, resolveAll, Table.get?, Ty.number, Ty.string]
  have hinner : Reorders (.union [.alias "Id", .string]) (.union [.string, .alias "Id"]) :=
    .union (.cons .refl (.cons .refl .nil)) (.swap ..)
  have hab : a.Reorders b := .union (.cons (.array hinner) (.cons .refl .nil)) (.refl _)
  have hbc : b.Reorders c := .union (.cons .refl (.cons .refl .nil)) (.swap ..)
  obtain ⟨hrefl, -, hreorder, htrans⟩ := same_equivalence ha hb hc
  obtain ⟨-, hcomm, -, -⟩ := same_equivalence ha hc hb
  obtain ⟨-, -, hreorder', -⟩ := same_equivalence hb hc ha
  have hsame := hreorder b hab
  have hsame' := hreorder' c hbc
  exact ⟨⟨ha, hb, hc⟩, ⟨rfl, rfl, rfl⟩, hab, hbc, hrefl, hcomm, hsame, hsame',
    htrans rfl rfl rfl hsame hsame'⟩

end Aliases

end StructLang
