import StructLang.Ty.Alias

namespace StructLang

namespace Ty

mutual

def size : Ty → Nat
  | .array e => e.size + 1
  | .union ms => sizes ms + 1
  | _ => 1

def sizes : List Ty → Nat
  | [] => 0
  | t :: ts => t.size + sizes ts

end

theorem size_le_sizes {t : Ty} {ts : List Ty} (h : t ∈ ts) : t.size ≤ sizes ts := by
  induction ts with
  | nil => cases h
  | cons s ts ih =>
    rcases List.mem_cons.1 h with rfl | h
    · simp [sizes]
    · have := ih h
      simp only [sizes]
      omega

end Ty

namespace Aliases

def weight (Γ : Aliases) (t : Ty) : Nat :=
  match Γ.resolve t with
  | .ok r => r.size
  | .error _ => 0

theorem weight_of_isClosed {Γ : Aliases} {t : Ty} (h : t.isClosed) : Γ.weight t = t.size := by
  simp [weight, resolve, resolveFrom_of_isClosed Γ [] t h]

theorem weight_element {Γ : Aliases} {a s : Ty} (h : Γ.resolve a = .ok (.array s)) :
    Γ.weight s < Γ.weight a := by
  have hs : s.isClosed := by simpa [Ty.isClosed] using isClosed_of_resolveFrom h
  rw [weight_of_isClosed hs, weight, h]
  simp [Ty.size]

theorem weight_member {Γ : Aliases} {a m : Ty} {ms : List Ty} (h : Γ.resolve a = .ok (.union ms))
    (hm : m ∈ ms) : Γ.weight m < Γ.weight a := by
  have hc : Ty.allClosed ms := by simpa [Ty.isClosed] using isClosed_of_resolveFrom h
  rw [weight_of_isClosed (Ty.allClosed_iff.1 hc m hm), weight, h]
  have := Ty.size_le_sizes hm
  simp only [Ty.size]
  omega

/-- Two types agree if they are one primitive, arrays of types that agree, or unions of equally many
members where each member of either agrees with some member of the other. -/
def same (Γ : Aliases) (a b : Ty) : Except AliasError Bool :=
  match _ha : Γ.resolve a with
  | .error e => .error e
  | .ok x =>
    match _hb : Γ.resolve b with
    | .error e => .error e
    | .ok y =>
      if x.isAny || y.isAny then .ok true
      else match x, y with
        | .prim m, .prim n => .ok (m == n)
        | .array s, .array t => same Γ s t
        | .union ms, .union ns =>
          if ms.length = ns.length then do
            if ← ms.attach.allM fun ⟨m, _hm⟩ => ns.attach.anyM fun ⟨n, _hn⟩ => same Γ m n then
              ns.attach.allM fun ⟨n, _hn⟩ => ms.attach.anyM fun ⟨m, _hm⟩ => same Γ n m
            else return false
          else .ok false
        | _, _ => .ok false
termination_by Γ.weight a + Γ.weight b
decreasing_by
  · have := weight_element _ha
    have := weight_element _hb
    omega
  · have := weight_member _ha _hm
    have := weight_member _hb _hn
    omega
  · have := weight_member _ha _hm
    have := weight_member _hb _hn
    omega

/-- A value may be passed for a type that it agrees with, and for a union that has a member it
agrees with; of a union, every member must be fit to be passed. -/
def fits (Γ : Aliases) (value target : Ty) : Except AliasError Bool :=
  match _hv : Γ.resolve value with
  | .error e => .error e
  | .ok v =>
    match Γ.resolve target with
    | .error e => .error e
    | .ok t =>
      match same Γ v t with
      | .error e => .error e
      | .ok true => .ok true
      | .ok false =>
        match v, t with
        | .union ms, .union ns => ms.attach.allM fun ⟨m, _hm⟩ => fits Γ m (.union ns)
        | v, .union ns => ns.anyM fun n => same Γ v n
        | _, _ => .ok false
termination_by Γ.weight value
decreasing_by exact weight_member _hv _hm

end Aliases

end StructLang
