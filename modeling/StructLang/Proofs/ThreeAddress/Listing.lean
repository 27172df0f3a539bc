import StructLang.Proofs.ThreeAddress.Meaning

namespace StructLang

namespace ThreeAddress

open Code

/-- These lines compute the expression into the operand: they assign one temporary each, the next
ones in order, no temporary is used before, and when they have run in any memory the operand reads
the value that the expression has there. -/
structure Computes (c : Code) (k : Nat) (ls : List Line) (o : Operand) : Prop where
  targets : ls.map Line.target? = (List.range' (k + 1) c.operations).map some
  ordered : Ordered [] ls
  operand : ∀ j ∈ o.temps, j ∈ ls.filterMap Line.target?
  runs : ∀ {D : Type} (M : Model D) (env : String → D), ∃ env' d,
    runLines M env ls = some env' ∧ c.value M env = some d ∧ o.read M env' = some d ∧
      ∀ n, (∀ j ∈ ls.filterMap Line.target?, n ≠ tempName j) → env' n = env n

theorem Compiles.computes {c : Code} {k k' : Nat} {ls : List Line} {o : Operand}
    (h : Compiles c k ls o k') (hc : AvoidsBetween k k' c.usedNames) : Computes c k ls o where
  targets := h.counts.2
  ordered := h.ordered.1
  operand := h.ordered.2.1
  runs M env := by
    obtain ⟨env', d, hrun, hframe, hd, hread⟩ := h.runs hc M env
    refine ⟨env', d, hrun, hd, hread, fun n hn => hframe.eq n fun j hj hjk => hn j ?_⟩
    have hk := h.counts.1
    rw [h.targets, List.mem_range'_1]
    omega

mutual

inductive Lists : Code → Nat → List Line → Prop
  | expr : Computes e k ls o → Lists (.expr e place) k (ls ++ [.result o])
  | ret : Computes e k ls o → Lists (.ret e place) k (ls ++ [.ret o])
  | typeAlias : Lists (.alias n type place) k []
  | declare : Lists (.declare n params result b place) k
      [.function n, if b then .forwards n else .noBody]
  | empty : Lists (.define n params result [] b place) k
      [.function n, if b then .forwards n else .noBody]
  | define : ListsAll (s :: body) k ls →
      Lists (.define n params result (s :: body) builtin place) k (.function n :: ls)
  | program : ListsAll ss k ls → Lists (.program ss file place) k ls

inductive ListsAll : List Code → Nat → List Line → Prop
  | nil : ListsAll [] k []
  | cons : Lists c k ls → ListsAll cs (k + c.operations) rs → ListsAll (c :: cs) k (ls ++ rs)

end

end ThreeAddress

namespace Code

inductive IsListed : Code → Prop
  | expr : IsTerm e → IsListed (.expr e place)
  | ret : IsTerm e → IsListed (.ret e place)
  | typeAlias : IsListed (.alias n type place)
  | declare : IsListed (.declare n params result builtin place)
  | define : (∀ s ∈ body, IsListed s) → IsListed (.define n params result body builtin place)
  | program : (∀ s ∈ ss, IsListed s) → IsListed (.program ss file place)

end Code

namespace ThreeAddress

open Code

mutual

inductive Writes : Code → Nat → List Line → Nat → Prop
  | expr : Compiles e k ls o k' → Writes (.expr e place) k (ls ++ [.result o]) k'
  | ret : Compiles e k ls o k' → Writes (.ret e place) k (ls ++ [.ret o]) k'
  | typeAlias : Writes (.alias n type place) k [] k
  | declare : Writes (.declare n params result b place) k
      [.function n, if b then .forwards n else .noBody] k
  | empty : Writes (.define n params result [] b place) k
      [.function n, if b then .forwards n else .noBody] k
  | define : WritesAll (s :: body) k ls k' →
      Writes (.define n params result (s :: body) builtin place) k (.function n :: ls) k'
  | program : WritesAll ss k ls k' → Writes (.program ss file place) k ls k'

inductive WritesAll : List Code → Nat → List Line → Nat → Prop
  | nil : WritesAll [] k [] k
  | cons : Writes c k ls k₁ → WritesAll cs k₁ rs k₂ → WritesAll (c :: cs) k (ls ++ rs) k₂

end

theorem emits_writesAll {cs : List Code}
    (h : ∀ c ∈ cs, ∀ k, Emits k (emit c) c.IsWritable
      fun ls o k' => o = .blank ∧ Writes c k ls k') (k : Nat) :
    Emits k (emitAll cs) (∀ v ∈ literalsAll cs, v.isWritable)
      fun ls _ k' => WritesAll cs k ls k' := by
  induction cs generalizing k with
  | nil =>
    rw [emitAll]
    exact (Emits.pure .nil).congr (by simp [literalsAll])
  | cons c cs ih =>
    rw [List.forall_mem_cons] at h
    rw [emitAll]
    refine ((h.1 k).bind ?_).congr (P := _ ∧ ∀ v ∈ literalsAll cs, v.isWritable) ?_
    · rintro ls _ k₁ ⟨rfl, hc⟩
      refine (ih h.2 k₁).andThen fun rs _ k₂ hcs => .pure ?_
      rw [List.append_nil]
      exact .cons hc hcs
    · simp [literalsAll, IsWritable, or_imp, forall_and]

theorem emits_writes {c : Code} (h : c.IsListed) (k : Nat) :
    Emits k (emit c) c.IsWritable fun ls o k' => o = .blank ∧ Writes c k ls k' := by
  rw [IsWritable]
  induction h generalizing k with
  | expr h =>
    rw [emit, literals]
    exact (emits_of_isTerm h k).andThen fun ls o k' he => .line (.pure ⟨rfl, .expr he⟩)
  | ret h =>
    rw [emit, literals]
    exact (emits_of_isTerm h k).andThen fun ls o k' he => .line (.pure ⟨rfl, .ret he⟩)
  | typeAlias =>
    rw [emit]
    exact (Emits.pure ⟨rfl, .typeAlias⟩).congr (by simp [literals])
  | declare =>
    rw [emit]
    exact (Emits.line (.line (.pure ⟨rfl, .declare⟩))).congr (by simp [literals])
  | @define body n params result builtin place h ih =>
    rw [emit, literals]
    cases body with
    | nil => exact (Emits.line (.line (.pure ⟨rfl, .empty⟩))).congr (by simp [literalsAll])
    | cons s body =>
      refine .line ((emits_writesAll ih k).andThen fun ls _ k' hall => .pure ⟨rfl, ?_⟩)
      rw [List.append_nil]
      exact .define hall
  | program h ih =>
    rw [emit, literals]
    refine (emits_writesAll ih k).andThen fun ls _ k' hall => .pure ⟨rfl, ?_⟩
    rw [List.append_nil]
    exact .program hall

mutual

theorem Writes.counts {c : Code} {k k' : Nat} {ls : List Line} (h : Writes c k ls k') :
    k' = k + c.operations := by
  match h with
  | .expr h | .ret h => exact h.counts.1
  | .typeAlias | .declare | .empty => rfl
  | .define h | .program h => exact h.counts

theorem WritesAll.counts {cs : List Code} {k k' : Nat} {ls : List Line} (h : WritesAll cs k ls k') :
    k' = k + operationsAll cs := by
  match h with
  | .nil => rfl
  | .cons hc hcs => rw [hcs.counts, hc.counts, operationsAll, Nat.add_assoc]

end

mutual

theorem Writes.lists {c : Code} {k k' : Nat} {ls : List Line} (h : Writes c k ls k')
    (hc : AvoidsBetween k k' c.usedNames) : Lists c k ls := by
  match h with
  | .expr h => exact .expr (h.computes hc)
  | .ret h => exact .ret (h.computes hc)
  | .typeAlias => exact .typeAlias
  | .declare => exact .declare
  | .empty => exact .empty
  | .define h => exact .define (h.lists hc)
  | .program h => exact .program (h.lists hc)

theorem WritesAll.lists {cs : List Code} {k k' : Nat} {ls : List Line} (h : WritesAll cs k ls k')
    (hcs : AvoidsBetween k k' (usedNamesAll cs)) : ListsAll cs k ls := by
  match h with
  | .nil => exact .nil
  | .cons h hs =>
    rw [usedNamesAll, avoidsBetween_append] at hcs
    obtain rfl := h.counts
    have hk := hs.counts
    exact .cons (h.lists (hcs.1.mono (Nat.le_refl k) (by omega)))
      (hs.lists (hcs.2.mono (by omega) (Nat.le_refl k')))

end

structure Assigns (k count : Nat) (ls : List Line) : Prop where
  targets : ls.filterMap Line.target? = List.range' (k + 1) count
  ordered : Ordered [] ls

namespace Assigns

variable {k a b : Nat} {ls rs : List Line}

theorem nil (k : Nat) : Assigns k 0 [] := ⟨rfl, trivial⟩

theorem append (h : Assigns k a ls) (h' : Assigns (k + a) b rs) : Assigns k (a + b) (ls ++ rs) where
  targets := by
    rw [List.filterMap_append, h.targets, h'.targets, ← List.range'_append_1, Nat.add_right_comm]
  ordered := ordered_append.2 ⟨h.ordered, h'.ordered.mono (by simp)⟩

theorem concat (h : Assigns k a ls) {l : Line} (htarget : l.target? = none)
    (huses : ∀ j ∈ l.uses, j ∈ ls.filterMap Line.target?) : Assigns k a (ls ++ [l]) where
  targets := by simp [h.targets, htarget]
  ordered := ordered_append.2 ⟨h.ordered, huses, trivial⟩

theorem function (h : Assigns k a ls) (n : String) : Assigns k a (.function n :: ls) :=
  ⟨h.targets, by simp [Line.uses], h.ordered.mono (by simp)⟩

theorem bodiless (k : Nat) (n : String) (forwards : Bool) :
    Assigns k 0 [.function n, if forwards then .forwards n else .noBody] := by
  cases forwards <;> exact ((nil k).concat rfl (by simp [Line.uses])).function n

end Assigns

mutual

/-- In a whole listing the temporaries are assigned in order and none is used before, also where
names are spelled like temporaries. -/
theorem Writes.assigns {c : Code} {k k' : Nat} {ls : List Line} (h : Writes c k ls k') :
    Assigns k c.operations ls := by
  match h with
  | .expr h | .ret h =>
    have hassigns : Assigns k _ _ := ⟨h.targets, h.ordered.1⟩
    exact hassigns.concat rfl h.ordered.2.1
  | .typeAlias => exact .nil k
  | .declare | .empty => exact .bodiless k _ _
  | .define h => exact h.assigns.function _
  | .program h => exact h.assigns

theorem WritesAll.assigns {cs : List Code} {k k' : Nat} {ls : List Line}
    (h : WritesAll cs k ls k') : Assigns k (operationsAll cs) ls := by
  match h with
  | .nil => exact .nil k
  | .cons hc hcs =>
    obtain rfl := hc.counts
    exact hc.assigns.append hcs.assigns

end

end ThreeAddress

end StructLang
