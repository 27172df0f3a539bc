import Mathlib.Data.Finset.Card
import Mathlib.Order.Bounds.Defs
import StructLang.Proofs.Script.Binding

namespace StructLang.Script

open Code

variable {taken : List String} {name : String}

def suffixed (name : String) (k : Nat) : String := name ++ String.ofList (List.replicate k '_')

theorem suffixed_zero (name : String) : suffixed name 0 = name := by
  simp [suffixed]

theorem suffixed_succ (name : String) (k : Nat) :
    suffixed name (k + 1) = suffixed (name ++ "_") k := by
  rw [← String.toList_inj]
  simp [suffixed, List.replicate_succ]

theorem suffixed_injective (name : String) : Function.Injective (suffixed name) := by
  intro j k h
  simpa [suffixed] using congrArg String.length h

def search (taken : List String) : Nat → String → Option String
  | 0, _ => none
  | n + 1, name => if name ∈ taken then search taken n (name ++ "_") else some name

theorem isLeast_suffixed_succ {k : Nat} (h : name ∈ taken)
    (hk : IsLeast {k | suffixed (name ++ "_") k ∉ taken} k) :
    IsLeast {k | suffixed name k ∉ taken} (k + 1) := by
  constructor
  · have hfree : suffixed (name ++ "_") k ∉ taken := hk.1
    rwa [← suffixed_succ] at hfree
  · intro j hj
    have hfree : suffixed name j ∉ taken := hj
    cases j with
    | zero =>
      rw [suffixed_zero] at hfree
      exact absurd h hfree
    | succ j =>
      rw [suffixed_succ] at hfree
      exact Nat.succ_le_succ (hk.2 hfree)

theorem exists_isLeast_search (taken : List String) (name : String) :
    ∃ k, IsLeast {k | suffixed name k ∉ taken} k ∧ freeName taken name = suffixed name k ∧
      ∀ n, search taken n name = if k < n then some (suffixed name k) else none := by
  fun_induction freeName taken name with
  | case1 name h ih =>
    obtain ⟨k, hk, heq, hsearch⟩ := ih
    refine ⟨k + 1, isLeast_suffixed_succ h hk, by rw [heq, suffixed_succ], fun n => ?_⟩
    cases n with
    | zero => rfl
    | succ n =>
      rw [search, if_pos h, hsearch, suffixed_succ]
      simp only [Nat.add_lt_add_iff_right]
  | case2 name h =>
    have hfree : suffixed name 0 ∉ taken := by rwa [suffixed_zero]
    refine ⟨0, ⟨hfree, fun _ _ => Nat.zero_le _⟩, (suffixed_zero name).symm, fun n => ?_⟩
    cases n with
    | zero => rfl
    | succ n => rw [search, if_neg h, suffixed_zero, if_pos n.succ_pos]

/-- All names that are tried in vain are taken, and no two of them are one. -/
theorem le_card_of_isLeast {k : Nat} (h : IsLeast {k | suffixed name k ∉ taken} k) :
    k ≤ taken.toFinset.card := by
  -- pigeonhole: the first `k` candidates go into the taken names without meeting
  have htaken : ∀ j ∈ Finset.range k, suffixed name j ∈ taken.toFinset := by
    intro j hj
    by_contra hfree
    exact absurd (h.2 fun hmem => hfree (List.mem_toFinset.2 hmem)) (by simpa using hj)
  simpa using Finset.card_le_card_of_injOn (suffixed name) htaken (suffixed_injective name).injOn

def declaredNames (program : Code) : List String :=
  (functions program).flatMap fun f => functionName f :: ownNames f

theorem exists_paramNames_iff {ps : List Code} :
    (∃ ns, paramNames ps = .ok ns) ↔ ∀ p ∈ ps, p.ownName?.isSome := by
  induction ps with
  | nil => exact ⟨fun _ => nofun, fun _ => ⟨[], rfl⟩⟩
  | cons p ps ih =>
    rw [List.forall_mem_cons, ← ih, paramNames]
    cases p.ownName? with
    | none => simp
    | some n => simp [bind_eq_ok]

theorem exists_takenNames_iff {fs : List Code} :
    (∃ ns, takenNames fs = .ok ns) ↔ ∀ f ∈ fs, ∀ p ∈ functionParams f, p.ownName?.isSome := by
  induction fs with
  | nil => exact ⟨fun _ => nofun, fun _ => ⟨[], rfl⟩⟩
  | cons f fs ih =>
    rw [List.forall_mem_cons, ← ih, ← exists_paramNames_iff, takenNames]
    simp [bind_eq_ok]

theorem bindingName_eq_ok_iff {binding r : String} {program : Code} :
    bindingName binding program = .ok r ↔
      (∀ f ∈ functions program, ∀ p ∈ functionParams f, p.ownName?.isSome) ∧
        r = freeName (declaredNames program) binding := by
  rw [bindingName, bind_eq_ok, ← exists_takenNames_iff]
  constructor
  · rintro ⟨taken, htaken, h⟩
    cases h
    exact ⟨⟨taken, htaken⟩, by rw [declaredNames, eq_flatMap_of_takenNames htaken]⟩
  · rintro ⟨⟨taken, htaken⟩, rfl⟩
    exact ⟨taken, htaken, by rw [declaredNames, ← eq_flatMap_of_takenNames htaken]; rfl⟩

/-- The searches for the binding of a program and for a parameter that takes further arguments end
with the fewest underscores that give a free name. They try one name more than that, and no more
underscores than there are names taken. The binding is free of all declarations, whichever of them
are emitted, and there is one whenever each parameter has a name. -/
theorem fewest_underscores :
    (∀ (binding : String) (program : Code), ∃ k,
      IsLeast {k | suffixed binding k ∉ declaredNames program} k ∧
        k ≤ (declaredNames program).toFinset.card ∧
        (∀ n, search (declaredNames program) n binding =
          if k < n then some (suffixed binding k) else none) ∧
        ∀ r, bindingName binding program = .ok r ↔
          (∀ f ∈ functions program, ∀ p ∈ functionParams f, p.ownName?.isSome) ∧
            r = suffixed binding k) ∧
      ∀ params : List String, ∃ k,
        IsLeast {k | suffixed "rest" k ∉ params} k ∧ k ≤ params.toFinset.card ∧
          (∀ n, search params n "rest" = if k < n then some (suffixed "rest" k) else none) ∧
          freeName params "rest" = suffixed "rest" k ∧
          ∀ binding f, (emitFunction.forwarder binding f params).rest =
            if (Library.find? f).any Signature.variadic then some (suffixed "rest" k)
            else none := by
  constructor
  · intro binding program
    obtain ⟨k, hk, heq, hsearch⟩ := exists_isLeast_search (declaredNames program) binding
    exact ⟨k, hk, le_card_of_isLeast hk, hsearch, fun r => by rw [bindingName_eq_ok_iff, heq]⟩
  · intro params
    obtain ⟨k, hk, heq, hsearch⟩ := exists_isLeast_search params "rest"
    exact ⟨k, hk, le_card_of_isLeast hk, hsearch, heq,
      fun binding f => by rw [emitFunction.forwarder, heq]⟩

/-- A declaration that gives way to one with a body still takes its names. -/
example : bindingName "stdlib" (.program
    [.declare "f" [.param "stdlib" .number none] .number false none,
      .define "f" [.param "stdlib_" .number none] .number [.ret (.name "stdlib_" none) none] false
        none]
    "main.struct" none) = .ok "stdlib__" := by cbv

end StructLang.Script
