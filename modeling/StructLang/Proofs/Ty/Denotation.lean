import StructLang.Proofs.Ty.Agreement

namespace StructLang

/-- What a program computes with; of numbers nothing is asked. -/
inductive Datum (ν : Type) where
  | number (n : ν)
  | string (s : String)
  | boolean (b : Bool)
  | void
  | array (items : List (Datum ν))

namespace Ty

variable {ν : Type}

def primHolds (name : String) : Datum ν → Bool
  | .number _ => name == "number" || name == "any"
  | .string _ => name == "string" || name == "any"
  | .boolean _ => name == "boolean" || name == "any"
  | .void => name == "void" || name == "any"
  | .array _ => name == "any"

mutual

def holds : Ty → Datum ν → Bool
  | .prim name, v => primHolds name v
  | .array e, .array items => items.all e.holds
  | .union ms, v => anyHolds ms v
  | _, _ => false

def anyHolds : List Ty → Datum ν → Bool
  | [], _ => false
  | m :: ms, v => m.holds v || anyHolds ms v

end

mutual

def isAnyFree : Ty → Bool
  | .prim name => name != "any"
  | .array e => e.isAnyFree
  | .union ms => allAnyFree ms
  | .alias _ => true
  | .foreign => true

def allAnyFree : List Ty → Bool
  | [] => true
  | t :: ts => t.isAnyFree && allAnyFree ts

end

theorem allAnyFree_iff {ts : List Ty} : allAnyFree ts ↔ ∀ t ∈ ts, t.isAnyFree := by
  induction ts with
  | nil => simp [allAnyFree]
  | cons t ts ih => simp [allAnyFree, ih]

theorem holds_union {ms : List Ty} {v : Datum ν} : (union ms).holds v ↔ ∃ m ∈ ms, m.holds v := by
  rw [holds]
  induction ms with
  | nil => simp [anyHolds]
  | cons m ms ih => simp [anyHolds, ih]

theorem isAny_of_isAnyFree {a : Ty} (h : a.isAnyFree) : a.isAny = false := by
  cases a with
  | prim name => simpa [isAnyFree, isAny] using h
  | _ => rfl

theorem holds_of_agrees {a b : Ty} (h : a.agrees b) (ha : a.isAnyFree) (hb : b.isAnyFree)
    (v : Datum ν) : a.holds v = b.holds v := by
  induction hn : a.size + b.size using Nat.strongRecOn generalizing a b v with
  | ind n ih =>
    subst hn
    obtain hany | hany | ⟨n, rfl, rfl⟩ | ⟨s, t, rfl, rfl, hst⟩ |
      ⟨ms, ns, rfl, rfl, -, hleft, hright⟩ := agrees_cases h
    · simp [isAny_of_isAnyFree ha] at hany
    · simp [isAny_of_isAnyFree hb] at hany
    · rfl
    · have hsize : s.size + t.size < (array s).size + (array t).size := by
        simp only [size]
        omega
      cases v with
      | array items =>
        have hitems : (s.holds : Datum ν → Bool) = t.holds := by
          funext x
          exact ih _ hsize hst ha hb x rfl
        rw [holds, holds, hitems]
      | _ => rfl
    · have hms := allAnyFree_iff.1 ha
      have hns := allAnyFree_iff.1 hb
      rw [Bool.eq_iff_iff, holds_union, holds_union]
      constructor
      · rintro ⟨m, hm, hv⟩
        obtain ⟨n, hn, hmn⟩ := hleft m hm
        have hlt := Nat.add_lt_add (size_lt_of_mem hm) (size_lt_of_mem hn)
        exact ⟨n, hn, by rwa [← ih _ hlt hmn (hms m hm) (hns n hn) v rfl]⟩
      · rintro ⟨n, hn, hv⟩
        obtain ⟨m, hm, hnm⟩ := hright n hn
        have hlt := Nat.add_lt_add (size_lt_of_mem hm) (size_lt_of_mem hn)
        rw [Nat.add_comm m.size] at hlt
        exact ⟨m, hm, by rwa [← ih _ hlt hnm (hns n hn) (hms m hm) v rfl]⟩

theorem holds_of_passes {a b : Ty} (h : a.passes b) (ha : a.isAnyFree) (hb : b.isAnyFree)
    {v : Datum ν} (hv : a.holds v) : b.holds v := by
  induction hn : a.size using Nat.strongRecOn generalizing a with
  | ind n ih =>
    subst hn
    obtain hagrees | ⟨ns, rfl, ⟨n, hn, hagrees⟩ | ⟨ms, rfl, hms⟩⟩ := passes_cases h
    · rwa [← holds_of_agrees hagrees ha hb]
    · have hfree := allAnyFree_iff.1 hb n hn
      exact holds_union.2 ⟨n, hn, by rwa [← holds_of_agrees hagrees ha hfree]⟩
    · obtain ⟨m, hm, hv⟩ := holds_union.1 hv
      exact ih _ (size_lt_of_mem hm) (hms m hm) (allAnyFree_iff.1 ha m hm) hv rfl

end Ty

end StructLang
