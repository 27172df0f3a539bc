import StructLang.Proofs.Table
import StructLang.Proofs.Token.Hygiene
import StructLang.Proofs.Ty.Equivalence

namespace StructLang

namespace Ty

def isUnion : Ty → Bool
  | .union _ => true
  | _ => false

mutual

def parts : Ty → List Ty
  | .union ms => partsAll ms
  | t => [t]

def partsAll : List Ty → List Ty
  | [] => []
  | t :: ts => t.parts ++ partsAll ts

end

mutual

def depth : Ty → Nat
  | .array e => e.depth + 1
  | .union ms => depthAll ms + 1
  | _ => 0

def depthAll : List Ty → Nat
  | [] => 0
  | t :: ts => max t.depth (depthAll ts)

end

variable {a b c : Ty} {ms ns : List Ty}

theorem passes_iff : a.passes b ↔ a.agrees b ∨ ∃ ns, b = .union ns ∧
    ((a.isUnion = false ∧ ∃ n ∈ ns, a.agrees n) ∨ ∃ ms, a = .union ms ∧ ∀ m ∈ ms, m.passes b) := by
  rw [passes.eq_def, Bool.or_eq_true]
  cases b with
  | union ns => cases a <;> simp [isUnion]
  | _ => cases a <;> simp

theorem passes_of_agrees (h : a.agrees b) : a.passes b := passes_iff.2 (.inl h)

theorem passes_of_mem (ha : a.isUnion = false) {n : Ty} (hn : n ∈ ns) (h : a.agrees n) :
    a.passes (.union ns) :=
  passes_iff.2 (.inr ⟨ns, rfl, .inl ⟨ha, n, hn, h⟩⟩)

theorem passes_of_forall (h : ∀ m ∈ ms, m.passes (.union ns)) :
    (union ms).passes (.union ns) :=
  passes_iff.2 (.inr ⟨ns, rfl, .inr ⟨ms, rfl, h⟩⟩)

theorem isUnion_of_agrees (h : a.agrees b) (ha : a.isAnyFree) (hb : b.isAnyFree) :
    a.isUnion = b.isUnion := by
  obtain ⟨_, rfl, rfl⟩ | ⟨_, _, rfl, rfl, _⟩ | ⟨_, _, rfl, rfl, _⟩ :=
    agrees_cases_of_isAnyFree h ha hb
  · rfl
  · rfl
  · rfl

theorem isUnion_of_passes (h : (union ms).passes b) (hms : (union ms).isAnyFree)
    (hb : b.isAnyFree) : ∃ ns, b = .union ns := by
  obtain h | ⟨ns, rfl, -⟩ := passes_iff.1 h
  · have hunion := isUnion_of_agrees h hms hb
    cases b with
    | union ns => exact ⟨ns, rfl⟩
    | _ => cases hunion
  · exact ⟨ns, rfl⟩

theorem passes_of_agrees_of_passes (hab : a.agrees b) (hbc : b.passes c) (ha : a.isAnyFree)
    (hb : b.isAnyFree) (hc : c.isAnyFree) : a.passes c := by
  induction hn : a.size using Nat.strongRecOn generalizing a b with
  | ind n ih =>
    subst hn
    obtain h | ⟨ks, rfl, ⟨hunion, k, hk, hbk⟩ | ⟨ns, rfl, hns⟩⟩ := passes_iff.1 hbc
    · exact passes_of_agrees (agrees_trans hab h ha hb hc)
    · rw [← isUnion_of_agrees hab ha hb] at hunion
      have hkfree := allAnyFree_iff.1 hc k hk
      exact passes_of_mem hunion hk (agrees_trans hab hbk ha hb hkfree)
    · obtain ⟨_, -, ⟨⟩⟩ | ⟨_, _, -, ⟨⟩, -⟩ | ⟨ms, _, rfl, ⟨⟩, -, hleft, -⟩ :=
        agrees_cases_of_isAnyFree hab ha hb
      refine passes_of_forall fun m hm => ?_
      obtain ⟨n, hn, hmn⟩ := hleft m hm
      exact ih _ (size_lt_of_mem hm) hmn (hns n hn) (allAnyFree_iff.1 ha m hm)
        (allAnyFree_iff.1 hb n hn) rfl

theorem passes_of_union_passes (h : (union ms).passes c) (hms : (union ms).isAnyFree)
    (hc : c.isAnyFree) {m : Ty} (hm : m ∈ ms) (hunion : m.isUnion = false) : m.passes c := by
  obtain h | ⟨ks, rfl, ⟨⟨⟩, -⟩ | ⟨_, ⟨⟩, hall⟩⟩ := passes_iff.1 h
  · obtain ⟨_, ⟨⟩, -⟩ | ⟨_, _, ⟨⟩, -⟩ | ⟨_, ks, ⟨⟩, rfl, -, hleft, -⟩ :=
      agrees_cases_of_isAnyFree h hms hc
    obtain ⟨k, hk, hmk⟩ := hleft m hm
    exact passes_of_mem hunion hk hmk
  · exact hall m hm

theorem passes_trans (hab : a.passes b) (hbc : b.passes c) (ha : a.isAnyFree) (hb : b.isAnyFree)
    (hc : c.isAnyFree) : a.passes c := by
  induction hn : a.size using Nat.strongRecOn generalizing a with
  | ind n ih =>
    subst hn
    obtain h | ⟨ns, rfl, ⟨hunion, n, hn, han⟩ | ⟨ms, rfl, hms⟩⟩ := passes_iff.1 hab
    · exact passes_of_agrees_of_passes h hbc ha hb hc
    · have hnfree := allAnyFree_iff.1 hb n hn
      rw [isUnion_of_agrees han ha hnfree] at hunion
      exact passes_of_agrees_of_passes han (passes_of_union_passes hbc hb hc hn hunion) ha hnfree hc
    · -- a union that may be passed for a union may be so for unions only
      obtain ⟨ks, rfl⟩ := isUnion_of_passes hbc hb hc
      refine passes_of_forall fun m hm => ?_
      exact ih _ (size_lt_of_mem hm) (hms m hm) (allAnyFree_iff.1 ha m hm) rfl

theorem passes_congr {a' b' : Ty} (haa' : a.agrees a') (hbb' : b.agrees b') (ha : a.isAnyFree)
    (ha' : a'.isAnyFree) (hb : b.isAnyFree) (hb' : b'.isAnyFree) :
    a.passes b = a'.passes b' := by
  rw [Bool.eq_iff_iff]
  constructor
  · intro h
    have hleft := passes_trans (passes_of_agrees (agrees_symm haa')) h ha' ha hb
    exact passes_trans hleft (passes_of_agrees hbb') ha' hb hb'
  · intro h
    have hleft := passes_trans (passes_of_agrees haa') h ha ha' hb'
    exact passes_trans hleft (passes_of_agrees (agrees_symm hbb')) ha hb' hb

theorem IsMember.isUnion {m : Ty} (h : m.IsMember) : m.isUnion = false := by
  cases h with
  | prim _ | array _ => rfl

theorem IsMember.isClosed {m : Ty} (h : m.IsMember) : m.isClosed := by
  cases h with
  | prim _ | array _ => rfl

theorem IsLiteral.isClosed {t : Ty} (h : t.IsLiteral) : t.isClosed := by
  cases h with
  | member hm => exact hm.isClosed
  | union hm hn hms =>
    refine allClosed_iff.2 (List.forall_mem_cons.2 ⟨hm.isClosed, List.forall_mem_cons.2 ?_⟩)
    exact ⟨hn.isClosed, fun o ho => (hms o ho).isClosed⟩

end Ty

namespace Aliases

open Ty

variable {Γ : Aliases} {a b c a' b' : Ty}

def Exact (Γ : Aliases) (t : Ty) : Prop := ∃ r, Γ.resolve t = .ok r ∧ r.isAnyFree

def IsWritten (Γ : Aliases) : Prop := ∀ e ∈ Γ, e.2.IsWritten

/-- Away from the wildcard passing is reflexive and transitive, and types that agree may be passed
for the same types and have the same types passed for them. -/
theorem fits_preorder (ha : Γ.Exact a) (hb : Γ.Exact b) (hc : Γ.Exact c) (ha' : Γ.Exact a')
    (hb' : Γ.Exact b') :
    Γ.fits a a = .ok true ∧
      (Γ.fits a b = .ok true → Γ.fits b c = .ok true → Γ.fits a c = .ok true) ∧
      (Γ.same a a' = .ok true → Γ.same b b' = .ok true →
        ∃ v, Γ.fits a b = .ok v ∧ Γ.fits a' b' = .ok v) := by
  obtain ⟨x, hax, hx⟩ := ha
  obtain ⟨y, hby, hy⟩ := hb
  obtain ⟨z, hcz, hz⟩ := hc
  obtain ⟨x', hax', hx'⟩ := ha'
  obtain ⟨y', hby', hy'⟩ := hb'
  refine ⟨?_, fun hab hbc => ?_, fun haa' hbb' => ?_⟩
  · rw [fits_of_resolve hax hax, passes_of_agrees (agrees_refl (isClosed_of_resolveFrom hax))]
  · rw [fits_of_resolve hax hby, Except.ok.injEq] at hab
    rw [fits_of_resolve hby hcz, Except.ok.injEq] at hbc
    rw [fits_of_resolve hax hcz, passes_trans hab hbc hx hy hz]
  · rw [same_of_resolve hax hax', Except.ok.injEq] at haa'
    rw [same_of_resolve hby hby', Except.ok.injEq] at hbb'
    refine ⟨x.passes y, fits_of_resolve hax hby, ?_⟩
    rw [fits_of_resolve hax' hby', passes_congr haa' hbb' hx hx' hy hy']

namespace Keyed

def table : Aliases := [("Key", .union [.number, .string]), ("Label", .alias "Key")]

def nested : Ty := .union [.alias "Label", .string, .number]

def resolved : Ty := .union [.union [.number, .string], .string, .number]

theorem resolve_number : table.resolve .number = .ok .number := table.resolve_of_isClosed rfl

theorem resolve_label : table.resolve (.alias "Label") = .ok (.union [.number, .string]) := by
  simp [table, resolve, resolveFrom, resolveAll, Table.get?, number, string]

theorem resolve_nested : table.resolve nested = .ok resolved := by
  simp [table, nested, resolved, resolve, resolveFrom, resolveAll, Table.get?, number, string]

theorem passes_label : Ty.number.passes (.union [.number, .string]) :=
  passes_of_mem rfl (List.mem_cons_self ..) (agrees_prim "number")

theorem passes_nested : (union [.number, .string]).passes resolved := by
  have hnumber : Ty.number.passes resolved :=
    passes_of_mem rfl (by simp [number]) (agrees_prim "number")
  have hstring : Ty.string.passes resolved :=
    passes_of_mem rfl (by simp [string]) (agrees_prim "string")
  exact passes_of_forall (List.forall_mem_cons.2 ⟨hnumber, List.forall_mem_singleton.2 hstring⟩)

end Keyed

open Keyed in
theorem fits_preorder_keyed :
    table.fits .number (.alias "Label") = .ok true ∧
      table.fits (.alias "Label") nested = .ok true ∧ table.fits .number nested = .ok true ∧
      table.fits nested nested = .ok true ∧
      table.same (.alias "Label") (.union [.string, .number]) = .ok true ∧
      ∃ v, table.fits (.alias "Label") nested = .ok v ∧
        table.fits (.union [.string, .number]) nested = .ok v := by
  have hclosed : table.resolve (.union [.string, .number]) = .ok (.union [.string, .number]) :=
    table.resolve_of_isClosed rfl
  have hreorders : Reorders (.union [.number, .string]) (.union [.string, .number]) :=
    .union (.cons .refl (.cons .refl .nil)) (.swap ..)
  have hnumber : table.Exact .number := ⟨_, resolve_number, rfl⟩
  have hlabel : table.Exact (.alias "Label") := ⟨_, resolve_label, rfl⟩
  have hnested : table.Exact nested := ⟨_, resolve_nested, rfl⟩
  have hswapped : table.Exact (.union [.string, .number]) := ⟨_, hclosed, rfl⟩
  have hfit : table.fits .number (.alias "Label") = .ok true := by
    rw [fits_of_resolve resolve_number resolve_label, passes_label]
  have hfit' : table.fits (.alias "Label") nested = .ok true := by
    rw [fits_of_resolve resolve_label resolve_nested, passes_nested]
  have hsame : table.same (.alias "Label") (.union [.string, .number]) = .ok true := by
    rw [same_of_resolve resolve_label hclosed, hreorders.agrees rfl]
  have hself : table.same nested nested = .ok true := by
    rw [same_of_resolve resolve_nested resolve_nested, agrees_refl rfl]
  obtain ⟨-, htrans, -⟩ := fits_preorder hnumber hlabel hnested hnumber hlabel
  obtain ⟨-, -, hcongr⟩ := fits_preorder hlabel hnested hnested hswapped hnested
  obtain ⟨hrefl, -, -⟩ := fits_preorder hnested hnested hnested hnested hnested
  exact ⟨hfit, hfit', htrans hfit hfit', hrefl, hsame, hcongr hsame hself⟩

end Aliases

end StructLang
