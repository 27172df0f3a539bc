import StructLang.Proofs.Code.Rendering

namespace StructLang

namespace Code

inductive IsTerm : Code → Prop
  | literal : IsTerm (.literal v type place)
  | name : IsTerm (.name n place)
  | binary : IsTerm l → IsTerm r → IsTerm (.binary op l r place)
  | call : IsTerm f → (∀ a ∈ args, IsTerm a) → IsTerm (.call f args builtin place)
  | member : IsTerm o → IsTerm (.member o property place)

end Code

namespace ThreeAddress

open Code

mutual

/-- From this number of temporaries on, these lines are emitted for an expression and this operand
is returned; the number of temporaries is then another. -/
inductive Compiles : Code → Nat → List Line → Operand → Nat → Prop
  | literal : v.script = .ok text → Compiles (.literal v type place) k [] (.literal v text) k
  | name : Compiles (.name n place) k [] (.name n) k
  | binary : Compiles l k ls a k₁ → Compiles r k₁ rs b k₂ →
      Compiles (.binary op l r place) k (ls ++ rs ++ [.operation (k₂ + 1) op a b]) (.temp (k₂ + 1))
        (k₂ + 1)
  | call : Compiles f k ls a k₁ → CompilesAll args k₁ rs bs k₂ →
      Compiles (.call f args builtin place) k (ls ++ rs ++ [.call (k₂ + 1) a bs]) (.temp (k₂ + 1))
        (k₂ + 1)
  | member : Compiles o k ls a k' → Compiles (.member o p place) k ls (.member a p) k'

inductive CompilesAll : List Code → Nat → List Line → List Operand → Nat → Prop
  | nil : CompilesAll [] k [] [] k
  | cons : Compiles c k ls a k₁ → CompilesAll cs k₁ rs bs k₂ →
      CompilesAll (c :: cs) k (ls ++ rs) (a :: bs) k₂

end

variable {α β : Type}

/-- From this number of temporaries on, if `P` holds then the appended lines, the result and the
number of temporaries after are in `Q`, and if not then something cannot be written. -/
def Emits (k : Nat) (x : EmitM α) (P : Prop) (Q : List Line → α → Nat → Prop) : Prop :=
  ∀ lines,
    (P ∧ ∃ ls a k', x.run.run ⟨k, lines⟩ = (.ok a, ⟨k', lines ++ ls⟩) ∧ Q ls a k') ∨
      (¬P ∧ ∃ s, x.run.run ⟨k, lines⟩ = (.error .unwritable, s))

namespace Emits

variable {k : Nat} {x : EmitM α} {f : α → EmitM β} {P P' : Prop} {Q : List Line → α → Nat → Prop}
  {R : List Line → β → Nat → Prop}

theorem bind (h : Emits k x P Q)
    (hf : ∀ ls a k₁, Q ls a k₁ → Emits k₁ (f a) P' fun ls' => R (ls ++ ls')) :
    Emits k (x >>= f) (P ∧ P') R := by
  intro lines
  rw [run_bind]
  obtain ⟨hP, ls, a, k₁, hx, hQ⟩ | ⟨hP, s, hx⟩ := h lines
  · rw [hx]
    obtain ⟨hP', ls', b, k₂, hb, hR⟩ | ⟨hP', s, hb⟩ := hf ls a k₁ hQ (lines ++ ls)
    · refine .inl ⟨⟨hP, hP'⟩, ls ++ ls', b, k₂, ?_, hR⟩
      rw [← List.append_assoc]
      exact hb
    · exact .inr ⟨fun hp => hP' hp.2, s, hb⟩
  · rw [hx]
    exact .inr ⟨fun hp => hP hp.1, s, rfl⟩

theorem congr (h : Emits k x P Q) (hP : P ↔ P') : Emits k x P' Q := by
  rwa [Emits, ← hP]

theorem andThen (h : Emits k x P Q)
    (hf : ∀ ls a k₁, Q ls a k₁ → Emits k₁ (f a) True fun ls' => R (ls ++ ls')) :
    Emits k (x >>= f) P R :=
  (h.bind hf).congr (and_iff_left trivial)

theorem pure {a : α} (hQ : Q [] a k) : Emits k (pure a) True Q := by
  intro lines
  refine .inl ⟨trivial, [], a, k, ?_, hQ⟩
  rw [List.append_nil]
  rfl

theorem line {l : Line} {y : EmitM β} (h : Emits k y P fun ls => R (l :: ls)) :
    Emits k (do emitLine l; y) P R := by
  intro lines
  have hrun : (do emitLine l; y : EmitM β).run.run ⟨k, lines⟩ = y.run.run ⟨k, lines ++ [l]⟩ := rfl
  rw [hrun]
  obtain ⟨hP, ls, b, k', hb, hR⟩ | herror := h (lines ++ [l])
  · rw [List.append_assoc] at hb
    exact .inl ⟨hP, l :: ls, b, k', hb, hR⟩
  · exact .inr herror

theorem assign {l : Nat → Line} {Q : List Line → Operand → Nat → Prop}
    (hQ : Q [l (k + 1)] (.temp (k + 1)) (k + 1)) :
    Emits k (do let j ← newTemp; emitLine (l j); return .temp j) True Q :=
  fun _ => .inl ⟨trivial, [l (k + 1)], .temp (k + 1), k + 1, rfl, hQ⟩

end Emits

theorem emits_script (v : Value) (k : Nat) : Emits k (ExceptT.mk (pure v.script)) v.isWritable
    fun ls text k' => ls = [] ∧ v.script = .ok text ∧ k' = k := by
  intro lines
  have hsettles := v.script_settles
  cases hv : v.script with
  | ok text =>
    refine .inl ⟨(hsettles.of_ok hv).1, [], text, k, ?_, rfl, rfl, rfl⟩
    rw [List.append_nil]
    rfl
  | error e =>
    obtain ⟨hwritable, rfl⟩ := hsettles.of_error hv
    exact .inr ⟨hwritable, ⟨k, lines⟩, rfl⟩

theorem emits_all {cs : List Code}
    (h : ∀ c ∈ cs, ∀ k, Emits k (emit c) c.IsWritable (Compiles c k)) (k : Nat) :
    Emits k (emitAll cs) (∀ v ∈ literalsAll cs, v.isWritable) (CompilesAll cs k) := by
  induction cs generalizing k with
  | nil =>
    rw [emitAll]
    exact (Emits.pure .nil).congr (by simp [literalsAll])
  | cons c cs ih =>
    rw [List.forall_mem_cons] at h
    rw [emitAll]
    refine ((h.1 k).bind fun ls a k₁ hc => (ih h.2 k₁).bind fun rs bs k₂ hcs => .pure ?_).congr ?_
    · rw [List.append_nil]
      exact .cons hc hcs
    · simp [literalsAll, IsWritable, or_imp, forall_and]

theorem emits_of_isTerm {c : Code} (h : c.IsTerm) (k : Nat) :
    Emits k (emit c) c.IsWritable (Compiles c k) := by
  rw [IsWritable]
  induction h generalizing k with
  | @literal v =>
    rw [emit, literals]
    refine ((emits_script v k).andThen ?_).congr (by simp)
    rintro _ text _ ⟨rfl, hv, rfl⟩
    exact .pure (.literal hv)
  | name =>
    rw [emit]
    exact (Emits.pure .name).congr (by simp [literals])
  | binary _ _ ihl ihr =>
    rw [emit, literals]
    refine ((ihl k).bind fun ls a k₁ hl => (ihr k₁).bind fun rs b k₂ hr => .assign ?_).congr
      (by simp [or_imp, forall_and])
    rw [← List.append_assoc]
    exact .binary hl hr
  | call _ _ ihf ihargs =>
    rw [emit, literals]
    refine ((ihf k).bind fun ls a k₁ hf => (emits_all ihargs k₁).bind fun rs bs k₂ hargs =>
      .assign ?_).congr (by simp [or_imp, forall_and])
    rw [← List.append_assoc]
    exact .call hf hargs
  | member _ ih =>
    rw [emit, literals]
    refine (ih k).andThen fun ls a k₁ ho => .pure ?_
    rw [List.append_nil]
    exact .member ho

end ThreeAddress

end StructLang
