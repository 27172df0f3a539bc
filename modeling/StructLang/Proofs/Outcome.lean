import Mathlib.Data.List.Forall2

namespace StructLang

variable {ε α β : Type}

theorem bind_eq_ok {x : Except ε α} {f : α → Except ε β} {b : β} :
    x >>= f = .ok b ↔ ∃ a, x = .ok a ∧ f a = .ok b := by
  cases x with
  | error e => simp [bind, Except.bind]
  | ok a => simp [bind, Except.bind]

@[simp] theorem ok_bind (a : α) (f : α → Except ε β) : (Except.ok a >>= f) = f a := rfl

@[simp] theorem error_bind (e : ε) (f : α → Except ε β) :
    (Except.error e >>= f) = .error e := rfl

@[simp] theorem pure_eq_ok (a : α) : (pure a : Except ε α) = .ok a := rfl

@[simp] theorem map_ok (f : α → β) (a : α) : f <$> (Except.ok a : Except ε α) = .ok (f a) := rfl

theorem toOption_bind (x : Except ε α) (f : α → Except ε β) :
    (x >>= f).toOption = x.toOption.bind fun a => (f a).toOption := by
  cases x <;> rfl

theorem toOption_eq_some {x : Except ε α} {a : α} : x.toOption = some a ↔ x = .ok a := by
  cases x <;> simp [Except.toOption]

theorem forall₂_mapM {R : α → β → Prop} {f : α → Except ε β} {as : List α} {bs : List β}
    (hR : ∀ a ∈ as, ∀ b, f a = .ok b → R a b) (h : as.mapM f = .ok bs) : List.Forall₂ R as bs := by
  induction as generalizing bs with
  | nil =>
    cases h
    exact .nil
  | cons a as ih =>
    rw [List.forall_mem_cons] at hR
    rw [List.mapM_cons] at h
    obtain ⟨b, hb, h⟩ := bind_eq_ok.1 h
    obtain ⟨bs, hbs, h⟩ := bind_eq_ok.1 h
    cases h
    exact .cons (hR.1 b hb) (ih hR.2 hbs)

theorem forall₂_of_mapM {f : α → Except ε β} {as : List α} {bs : List β}
    (h : as.mapM f = .ok bs) : List.Forall₂ (fun a b => f a = .ok b) as bs :=
  forall₂_mapM (fun _ _ _ => id) h

theorem covers_of_forall₂ {R : α → β → Prop} {as : List α} {bs : List β}
    (h : List.Forall₂ R as bs) : (∀ a ∈ as, ∃ b ∈ bs, R a b) ∧ ∀ b ∈ bs, ∃ a ∈ as, R a b := by
  induction h with
  | nil => simp
  | cons hab _ ih =>
    simp only [List.forall_mem_cons, List.exists_mem_cons_iff]
    exact ⟨⟨.inl hab, fun a ha => .inr (ih.1 a ha)⟩, .inl hab, fun b hb => .inr (ih.2 b hb)⟩

theorem mapM_filter {f : α → Except ε β} {p : α → Bool} {q : β → Bool} {as : List α}
    {bs : List β} (h : as.mapM f = .ok bs) (hpq : ∀ a ∈ as, ∀ b, f a = .ok b → q b = p a) :
    (as.filter p).mapM f = .ok (bs.filter q) := by
  induction as generalizing bs with
  | nil =>
    cases h
    rfl
  | cons a as ih =>
    rw [List.forall_mem_cons] at hpq
    rw [List.mapM_cons] at h
    obtain ⟨b, hb, h⟩ := bind_eq_ok.1 h
    obtain ⟨bs, hbs, h⟩ := bind_eq_ok.1 h
    cases h
    have hfilter := ih hbs hpq.2
    rw [List.filter_cons, List.filter_cons, hpq.1 b hb]
    split
    · rw [List.mapM_cons, hb, hfilter]
      rfl
    · exact hfilter

theorem exists_mapM {f : α → Except ε β} {as : List α}
    (h : ∀ a ∈ as, ∃ b, f a = .ok b) : ∃ bs, as.mapM f = .ok bs := by
  induction as with
  | nil => exact ⟨[], rfl⟩
  | cons a as ih =>
    obtain ⟨⟨b, hb⟩, has⟩ := List.forall_mem_cons.1 h
    obtain ⟨bs, hbs⟩ := ih has
    exact ⟨b :: bs, by rw [List.mapM_cons, hb, hbs]; rfl⟩

theorem mapM_congr {f g : α → Except ε β} {as : List α} (h : ∀ a ∈ as, f a = g a) :
    as.mapM f = as.mapM g := by
  induction as with
  | nil => rfl
  | cons a as ih =>
    rw [List.forall_mem_cons] at h
    rw [List.mapM_cons, List.mapM_cons, h.1, ih h.2]

inductive Alike (R : α → β → Prop) : Except ε α → Except ε β → Prop
  | ok : R a b → Alike R (.ok a) (.ok b)
  | error : Alike R (.error e) (.error e)

namespace Alike

theorem bind {γ δ : Type} {R : α → β → Prop} {S : γ → δ → Prop} {x : Except ε α} {y : Except ε β}
    {f : α → Except ε γ} {g : β → Except ε δ} (h : Alike R x y)
    (hf : ∀ a b, R a b → Alike S (f a) (g b)) : Alike S (x >>= f) (y >>= g) := by
  cases h with
  | ok h => exact hf _ _ h
  | error => exact .error

theorem ite {R : α → β → Prop} {c : Prop} [Decidable c] {x x' : Except ε α} {y y' : Except ε β}
    (h : c → Alike R x y) (h' : ¬c → Alike R x' y') :
    Alike R (if c then x else x') (if c then y else y') := by
  split
  · exact h ‹c›
  · exact h' ‹¬c›

theorem mapM {γ : Type} {R : β → γ → Prop} {f : α → Except ε β} {g : α → Except ε γ} {as : List α}
    (h : ∀ a ∈ as, Alike R (f a) (g a)) : Alike (List.Forall₂ R) (as.mapM f) (as.mapM g) := by
  induction as with
  | nil => exact .ok .nil
  | cons a as ih =>
    rw [List.forall_mem_cons] at h
    rw [List.mapM_cons, List.mapM_cons]
    exact h.1.bind fun b c hbc => (ih h.2).bind fun bs cs hbcs => .ok (.cons hbc hbcs)

theorem mono {R S : α → β → Prop} {x : Except ε α} {y : Except ε β} (h : Alike R x y)
    (hRS : ∀ a b, R a b → S a b) : Alike S x y := by
  cases h with
  | ok h => exact .ok (hRS _ _ h)
  | error => exact .error

theorem and {R S : α → β → Prop} {x : Except ε α} {y : Except ε β} (h : Alike R x y)
    (h' : Alike S x y) : Alike (fun a b => R a b ∧ S a b) x y := by
  cases h with
  | ok h =>
    cases h' with
    | ok h' => exact .ok ⟨h, h'⟩
  | error => exact .error

theorem meet {γ : Type} {R : α → γ → Prop} {S : β → γ → Prop} {x : Except ε α} {y : Except ε β}
    {z : Except ε γ} (h : Alike R x z) (h' : Alike S y z) :
    Alike (fun a b => ∃ c, R a c ∧ S b c) x y := by
  cases h with
  | ok h =>
    cases h' with
    | ok h' => exact .ok ⟨_, h, h'⟩
  | error =>
    cases h' with
    | error => exact .error

theorem eq {x y : Except ε α} (h : Alike (· = ·) x y) : x = y := by
  cases h with
  | ok h => rw [h]
  | error => rfl

theorem exists_right {R : α → β → Prop} {x : Except ε α} {y : Except ε β} (h : Alike R x y) {a : α}
    (ha : x = .ok a) : ∃ b, y = .ok b ∧ R a b := by
  cases h with
  | ok h =>
    cases ha
    exact ⟨_, rfl, h⟩
  | error => cases ha

theorem exists_left {R : α → β → Prop} {x : Except ε α} {y : Except ε β} (h : Alike R x y) {b : β}
    (hb : y = .ok b) : ∃ a, x = .ok a ∧ R a b := by
  cases h with
  | ok h =>
    cases hb
    exact ⟨_, rfl, h⟩
  | error => cases hb

end Alike

/-- A computation ends with a value in `Q` or an error in `E`. -/
structure Yields (x : Except ε α) (Q : α → Prop) (E : ε → Prop) : Prop where
  of_ok : ∀ {a}, x = .ok a → Q a
  of_error : ∀ {e}, x = .error e → E e

namespace Yields

variable {x : Except ε α} {f : α → Except ε β} {Q Q' : α → Prop} {R : β → Prop} {E E' : ε → Prop}

theorem ok {a : α} (h : Q a) : Yields (.ok a) Q E where
  of_ok ha := Except.ok.inj ha ▸ h
  of_error he := nomatch he

theorem error {e : ε} (h : E e) : Yields (.error e) Q E where
  of_ok ha := nomatch ha
  of_error he := Except.error.inj he ▸ h

theorem mono (h : Yields x Q E) (hQ : ∀ a, Q a → Q' a) (hE : ∀ e, E e → E' e) :
    Yields x Q' E' where
  of_ok ha := hQ _ (h.of_ok ha)
  of_error he := hE _ (h.of_error he)

theorem bind (h : Yields x Q E) (hf : ∀ a, Q a → Yields (f a) R E) : Yields (x >>= f) R E := by
  cases x with
  | ok a => exact hf a (h.of_ok rfl)
  | error e => exact .error (h.of_error rfl)

theorem exists_ok (h : Yields x Q fun _ => False) : ∃ a, x = .ok a ∧ Q a := by
  cases x with
  | ok a => exact ⟨a, rfl, h.of_ok rfl⟩
  | error e => exact (h.of_error rfl).elim

theorem bind_congr {g : α → Except ε β} (h : Yields x Q E) (hfg : ∀ a, Q a → f a = g a) :
    x >>= f = x >>= g := by
  cases x with
  | error e => rfl
  | ok a => exact hfg a (h.of_ok rfl)

theorem toOption_bind_congr {g : α → Except ε β} (h : Yields x Q E)
    (hfg : ∀ a, Q a → (f a).toOption = (g a).toOption) :
    (x >>= f).toOption = (x >>= g).toOption := by
  cases x with
  | error e => rfl
  | ok a => exact hfg a (h.of_ok rfl)

theorem mapM {as : List α} (h : ∀ a ∈ as, Yields (f a) R E) :
    Yields (as.mapM f) (fun bs => ∀ b ∈ bs, R b) E := by
  induction as with
  | nil => exact .ok (by simp)
  | cons a as ih =>
    rw [List.mapM_cons]
    rw [List.forall_mem_cons] at h
    exact h.1.bind fun b hb => (ih h.2).bind fun bs hbs => .ok (List.forall_mem_cons.2 ⟨hb, hbs⟩)

end Yields

/-- A computation gives a value in `Q` if `P` holds, and fails with an error in `E` if not. -/
def Settles (x : Except ε α) (P : Prop) (Q : α → Prop) (E : ε → Prop) : Prop :=
  Yields x (fun a => P ∧ Q a) (fun e => ¬P ∧ E e)

namespace Settles

variable {x : Except ε α} {f : α → Except ε β} {P P' : Prop} {Q : α → Prop} {R : β → Prop}
  {E : ε → Prop}

theorem ok {a : α} (hP : P) (hQ : Q a) : Settles (.ok a : Except ε α) P Q E := Yields.ok ⟨hP, hQ⟩

theorem error {e : ε} (hP : ¬P) (hE : E e) : Settles (.error e : Except ε α) P Q E :=
  Yields.error ⟨hP, hE⟩

theorem ite (P : Prop) [Decidable P] (a : α) (e : ε) :
    Settles (if P then .ok a else .error e) (decide P) (fun _ => True) (· = e) := by
  split
  · exact .ok (decide_eq_true ‹_›) trivial
  · exact .error (by simpa) rfl

theorem yields (h : Settles x P Q E) : Yields x Q E :=
  h.mono (fun _ => And.right) fun _ => And.right

theorem bind (h : Settles x P Q E) (hf : ∀ a, Q a → Settles (f a) P' R E) :
    Settles (x >>= f) (P ∧ P') R E := by
  cases x with
  | error e =>
    obtain ⟨hP, hE⟩ := h.of_error rfl
    exact .error (fun hp => hP hp.1) hE
  | ok a =>
    obtain ⟨hP, hQ⟩ := h.of_ok rfl
    refine Yields.mono (hf a hQ) ?_ ?_
    · intro b hb
      exact ⟨⟨hP, hb.1⟩, hb.2⟩
    · intro e he
      exact ⟨fun hp => he.1 hp.2, he.2⟩

theorem congr (h : Settles x P Q E) (hP : P ↔ P') : Settles x P' Q E := by
  rwa [Settles, ← hP]

theorem andThen (h : Settles x P Q E) (hf : ∀ a, Q a → Settles (f a) True R E) :
    Settles (x >>= f) P R E :=
  (h.bind hf).congr (and_iff_left trivial)

theorem weaken {E' : ε → Prop} (h : Settles x P Q E) (hE : ∀ e, E e → E' e) :
    Settles x P Q E' :=
  Yields.mono h (fun _ => id) fun e he => ⟨he.1, hE e he.2⟩

theorem gives {Q' : α → Prop} (h : Settles x P Q E) (hQ : ∀ a, x = .ok a → Q' a) :
    Settles x P Q' E where
  of_ok ha := ⟨(h.of_ok ha).1, hQ _ ha⟩
  of_error he := h.of_error he

theorem isOk_iff (h : Settles x P Q E) : (∃ a, x = .ok a) ↔ P := by
  cases x with
  | ok a => exact iff_of_true ⟨a, rfl⟩ (h.of_ok rfl).1
  | error e => exact iff_of_false (by rintro ⟨a, ⟨⟩⟩) (h.of_error rfl).1

theorem mapM {f : α → Except ε β} {P : α → Prop} {as : List α}
    (h : ∀ a ∈ as, Settles (f a) (P a) R E) :
    Settles (as.mapM f) (∀ a ∈ as, P a) (fun bs => ∀ b ∈ bs, R b) E := by
  induction as with
  | nil => exact .ok (by simp) (by simp)
  | cons a as ih =>
    rw [List.mapM_cons]
    rw [List.forall_mem_cons] at h
    refine (h.1.bind fun b hb => (ih h.2).bind fun bs hbs => .ok trivial ?_).congr (by simp)
    exact List.forall_mem_cons.2 ⟨hb, hbs⟩

end Settles

section State

variable {σ : Type} {x : ExceptT ε (StateM σ) α} {f : α → ExceptT ε (StateM σ) β}

theorem run_bind (x : ExceptT ε (StateM σ) α) (f : α → ExceptT ε (StateM σ) β) (s : σ) :
    (x >>= f).run.run s = match x.run.run s with
      | (.ok a, s) => (f a).run.run s
      | (.error e, s) => (.error e, s) := by
  rw [ExceptT.run_bind, StateT.run_bind]
  cases x.run.run s with
  | mk a s => cases a <;> rfl

def SettlesM (x : ExceptT ε (StateM σ) α) (P : Prop) (Q : α → Prop) (E : ε → Prop) : Prop :=
  ∀ s, Settles (x.run.run s).1 P Q E

namespace SettlesM

variable {P P' : Prop} {Q : α → Prop} {R : β → Prop} {E : ε → Prop}

theorem pure {a : α} (hP : P) (hQ : Q a) : SettlesM (pure a : ExceptT ε (StateM σ) α) P Q E :=
  fun _ => .ok hP hQ

theorem modify {g : σ → σ} (hP : P) :
    SettlesM (modify g : ExceptT ε (StateM σ) Unit) P (fun _ => True) E :=
  fun _ => .ok hP trivial

theorem mk {y : Except ε α} (h : Settles y P Q E) :
    SettlesM (ExceptT.mk (Pure.pure y) : ExceptT ε (StateM σ) α) P Q E :=
  fun _ => h

theorem bind (h : SettlesM x P Q E) (hf : ∀ a, Q a → SettlesM (f a) P' R E) :
    SettlesM (x >>= f) (P ∧ P') R E := by
  intro s
  have hx := h s
  rw [run_bind]
  cases hrun : x.run.run s with
  | mk r s' =>
    rw [hrun] at hx
    cases r with
    | ok a => exact hx.bind (f := fun a => ((f a).run.run s').1) fun a ha => hf a ha s'
    | error e => exact hx.bind (f := fun a => ((f a).run.run s').1) fun a ha => hf a ha s'

theorem congr (h : SettlesM x P Q E) (hP : P ↔ P') : SettlesM x P' Q E := fun s => (h s).congr hP

theorem andThen (h : SettlesM x P Q E) (hf : ∀ a, Q a → SettlesM (f a) True R E) :
    SettlesM (x >>= f) P R E :=
  (h.bind hf).congr (and_iff_left trivial)

theorem imp {Q' : α → Prop} (h : SettlesM x P Q E) (hQ : ∀ a, Q a → Q' a) : SettlesM x P Q' E :=
  fun s => (h s).gives fun a ha => hQ a ((h s).of_ok ha).2

theorem mapM {f : α → ExceptT ε (StateM σ) β} {P : α → Prop} {as : List α}
    (h : ∀ a ∈ as, SettlesM (f a) (P a) R E) :
    SettlesM (as.mapM f) (∀ a ∈ as, P a) (fun bs => ∀ b ∈ bs, R b) E := by
  induction as with
  | nil => exact .pure (by simp) (by simp)
  | cons a as ih =>
    rw [List.mapM_cons]
    rw [List.forall_mem_cons] at h
    refine (h.1.bind fun b hb => (ih h.2).bind fun bs hbs => .pure trivial ?_).congr (by simp)
    exact List.forall_mem_cons.2 ⟨hb, hbs⟩

end SettlesM

end State

end StructLang
