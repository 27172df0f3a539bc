import Mathlib.Data.Rat.Defs
import StructLang.Operator

/-!
Expressions of the script language, by its own rules: their words, which words make an expression,
and how tightly each operator binds. A sign is no part of a number; it is an operator that binds
tighter than those with two operands and looser than a call or a member.

The words of an expression determine it. A machine with a stack reads the words one by one, and it
ends with every expression that the rules derive from them.
-/

namespace StructLang.Script

inductive Word where
  | number (value : ℚ)
  | string (units : List Nat)
  | name (name : String)
  | operator (op : Operator)
  | opening | closing | comma | point
  deriving DecidableEq

inductive Expr where
  | number (value : ℚ)
  | string (units : List Nat)
  | name (name : String)
  | minus (operand : Expr)
  | binary (op : Operator) (left right : Expr)
  | call (callee : Expr) (args : List Expr)
  | member (object : Expr) (property : String)

def precedence : Operator → Nat
  | .or => 3
  | .and => 4
  | .eq | .ne => 8
  | .lt | .gt | .le | .ge => 9
  | .add | .sub => 11
  | .mul | .div => 12

abbrev signPrecedence : Nat := 14

abbrev accessPrecedence : Nat := 17

theorem precedence_lt_sign (op : Operator) : precedence op < signPrecedence := by
  cases op <;> decide

mutual

/-- The words make the expression where an operator must have at least the precedence. -/
inductive Derives : Nat → List Word → Expr → Prop
  | number : Derives n [.number q] (.number q)
  | string : Derives n [.string us] (.string us)
  | name : Derives n [.name s] (.name s)
  | parens : Derives 0 ws e → Derives n (.opening :: ws ++ [.closing]) e
  | member : Derives accessPrecedence ws o → Derives n (ws ++ [.point, .name p]) (.member o p)
  | call : Derives accessPrecedence ws f → Arguments vs args →
      Derives n (ws ++ .opening :: vs ++ [.closing]) (.call f args)
  | minus : n ≤ signPrecedence → Derives signPrecedence ws e →
      Derives n (.operator .sub :: ws) (.minus e)
  | binary : n ≤ precedence op → Derives (precedence op) ls l → Derives (precedence op + 1) rs r →
      Derives n (ls ++ .operator op :: rs) (.binary op l r)

inductive Arguments : List Word → List Expr → Prop
  | none : Arguments [] []
  | some : Items ws es → Arguments ws es

inductive Items : List Word → List Expr → Prop
  | one : Derives 0 ws e → Items ws [e]
  | cons : Derives 0 ws e → Items vs es → Items (ws ++ .comma :: vs) (e :: es)

end

theorem Derives.mono {m n : Nat} {ws : List Word} {e : Expr} (h : Derives n ws e) (hmn : m ≤ n) :
    Derives m ws e := by
  match h with
  | .number => exact .number
  | .string => exact .string
  | .name => exact .name
  | .parens h => exact .parens h
  | .member h => exact .member h
  | .call h hargs => exact .call h hargs
  | .minus hn h => exact .minus (hmn.trans hn) h
  | .binary hn hl hr => exact .binary (hmn.trans hn) hl hr

namespace Machine

inductive Frame where
  | minus
  | left (l : Expr) (op : Operator)
  | parens
  | call (f : Expr) (args : List Expr)

inductive Mode where
  | want
  | after (e : Expr)
  | dot (e : Expr)

def settle (p : Nat) : Expr → List Frame → Expr × List Frame
  | e, .minus :: σ => if p ≤ signPrecedence then settle p (.minus e) σ else (e, .minus :: σ)
  | e, .left l op :: σ =>
    if p ≤ precedence op then settle p (.binary op l e) σ else (e, .left l op :: σ)
  | e, σ => (e, σ)

def step : List Frame × Mode → Word → Option (List Frame × Mode)
  | (σ, .want), .number q => some (σ, .after (.number q))
  | (σ, .want), .string us => some (σ, .after (.string us))
  | (σ, .want), .name s => some (σ, .after (.name s))
  | (σ, .want), .operator .sub => some (.minus :: σ, .want)
  | (σ, .want), .opening => some (.parens :: σ, .want)
  | (.call f [] :: σ, .want), .closing => some (σ, .after (.call f []))
  | (σ, .after e), .operator op =>
    let (l, σ) := settle (precedence op) e σ
    some (.left l op :: σ, .want)
  | (σ, .after e), .opening => some (.call e [] :: σ, .want)
  | (σ, .after e), .point => some (σ, .dot e)
  | (σ, .dot o), .name p => some (σ, .after (.member o p))
  | (σ, .after e), .comma =>
    match settle 0 e σ with
    | (a, .call f args :: σ) => some (.call f (args ++ [a]) :: σ, .want)
    | _ => none
  | (σ, .after e), .closing =>
    match settle 0 e σ with
    | (a, .parens :: σ) => some (σ, .after a)
    | (a, .call f args :: σ) => some (σ, .after (.call f (args ++ [a])))
    | _ => none
  | _, _ => none

def run (s : List Frame × Mode) (ws : List Word) : Option (List Frame × Mode) := ws.foldlM step s

theorem run_append (s : List Frame × Mode) (us vs : List Word) :
    run s (us ++ vs) = (run s us).bind (run · vs) := List.foldlM_append

theorem run_cons (s : List Frame × Mode) (w : Word) (ws : List Word) :
    run s (w :: ws) = (step s w).bind (run · ws) := rfl

@[simp] theorem run_nil (s : List Frame × Mode) : run s [] = some s := rfl

/-- An operator of the precedence leaves all that waits as it is. -/
def Blocks (n : Nat) (σ : List Frame) : Prop :=
  ∀ op e, n ≤ precedence op → settle (precedence op) e σ = (e, σ)

theorem Blocks.mono {m n : Nat} {σ : List Frame} (h : Blocks m σ) (hmn : m ≤ n) : Blocks n σ :=
  fun op e hn => h op e (hmn.trans hn)

theorem blocks_parens (n : Nat) (σ : List Frame) : Blocks n (.parens :: σ) := fun _ _ _ => rfl

theorem blocks_call (n : Nat) (f : Expr) (args : List Expr) (σ : List Frame) :
    Blocks n (.call f args :: σ) := fun _ _ _ => rfl

theorem blocks_left (l : Expr) (op : Operator) (σ : List Frame) :
    Blocks (precedence op + 1) (.left l op :: σ) := by
  intro op' e h
  rw [settle, if_neg (by omega)]

theorem blocks_of_sign_le {n : Nat} (hn : signPrecedence ≤ n) (σ : List Frame) : Blocks n σ := by
  intro op e h
  exact absurd (hn.trans h) (Nat.not_le.2 (precedence_lt_sign op))

theorem settle_access (e : Expr) (σ : List Frame) : settle accessPrecedence e σ = (e, σ) := by
  match σ with
  | [] | .parens :: _ | .call _ _ :: _ => rfl
  | .minus :: σ => rw [settle, if_neg (by decide)]
  | .left l op :: σ =>
    rw [settle, if_neg (Nat.not_le.2 ((precedence_lt_sign op).trans (by decide)))]

/-- From what waits, the words lead to something that settles as the expression does. -/
def Runs (n : Nat) (σ : List Frame) (ws : List Word) (e : Expr) : Prop :=
  ∃ σ' e', run (σ, .want) ws = some (σ', .after e') ∧ ∀ p ≤ n, settle p e' σ' = settle p e σ

theorem Runs.access {σ : List Frame} {ws : List Word} {e : Expr}
    (h : Runs accessPrecedence σ ws e) : run (σ, .want) ws = some (σ, .after e) := by
  obtain ⟨σ', e', hrun, hsettle⟩ := h
  have heq := hsettle accessPrecedence (Nat.le_refl _)
  rw [settle_access, settle_access, Prod.mk.injEq] at heq
  rw [hrun, heq.1, heq.2]

theorem Runs.closes {σ : List Frame} {ws : List Word} {e : Expr} (h : Runs 0 σ ws e) :
    ∃ σ' e', run (σ, .want) ws = some (σ', .after e') ∧ settle 0 e' σ' = settle 0 e σ := by
  obtain ⟨σ', e', hrun, hsettle⟩ := h
  exact ⟨σ', e', hrun, hsettle 0 (Nat.le_refl 0)⟩

theorem Runs.of_run {n : Nat} {σ : List Frame} {ws : List Word} {e : Expr}
    (h : run (σ, .want) ws = some (σ, .after e)) : Runs n σ ws e :=
  ⟨σ, e, h, fun _ _ => rfl⟩

theorem Runs.binary {n : Nat} {σ : List Frame} {ls rs : List Word} {l r : Expr} {op : Operator}
    (hn : n ≤ precedence op) (hσ : Blocks n σ) (hl : Runs (precedence op) σ ls l)
    (hr : Runs (precedence op + 1) (.left l op :: σ) rs r) :
    Runs n σ (ls ++ .operator op :: rs) (.binary op l r) := by
  obtain ⟨σ₁, l₁, hrunl, hsettlel⟩ := hl
  obtain ⟨σ₂, r₂, hrunr, hsettler⟩ := hr
  have hleft : settle (precedence op) l₁ σ₁ = (l, σ) := by
    rw [hsettlel _ (Nat.le_refl _), hσ op l hn]
  refine ⟨σ₂, r₂, ?_, fun p hp => ?_⟩
  · rw [run_append, hrunl, Option.bind_some, run_cons]
    simp only [step, hleft, Option.bind_some, hrunr]
  · rw [hsettler p (hp.trans (hn.trans (Nat.le_succ _))), settle, if_pos (hp.trans hn)]

theorem Runs.minus {n : Nat} {σ : List Frame} {ws : List Word} {e : Expr}
    (hn : n ≤ signPrecedence) (h : Runs signPrecedence (.minus :: σ) ws e) :
    Runs n σ (.operator .sub :: ws) (.minus e) := by
  obtain ⟨σ', e', hrun, hsettle⟩ := h
  refine ⟨σ', e', hrun, fun p hp => ?_⟩
  rw [hsettle p (hp.trans hn), settle, if_pos (hp.trans hn)]

theorem Runs.parens {n : Nat} {σ : List Frame} {ws : List Word} {e : Expr}
    (h : Runs 0 (.parens :: σ) ws e) : Runs n σ (.opening :: ws ++ [.closing]) e := by
  obtain ⟨σ', e', hrun, hsettle⟩ := h.closes
  have hclose : settle 0 e' σ' = (e, .parens :: σ) := hsettle
  refine .of_run ?_
  rw [List.cons_append, run_cons]
  simp only [step, Option.bind_some, run_append, hrun, run_cons, hclose, run_nil]

theorem Runs.member {n : Nat} {σ : List Frame} {ws : List Word} {o : Expr} {p : String}
    (h : Runs accessPrecedence σ ws o) :
    Runs n σ (ws ++ [.point, .name p]) (.member o p) := by
  refine .of_run ?_
  rw [run_append, h.access]
  rfl

def RunsArguments (σ : List Frame) (f : Expr) (args : List Expr) (vs : List Word)
    (es : List Expr) : Prop :=
  run (.call f args :: σ, .want) (vs ++ [.closing]) = some (σ, .after (.call f (args ++ es)))

theorem Runs.call {n : Nat} {σ : List Frame} {ws vs : List Word} {f : Expr} {args : List Expr}
    (h : Runs accessPrecedence σ ws f) (hargs : RunsArguments σ f [] vs args) :
    Runs n σ (ws ++ .opening :: vs ++ [.closing]) (.call f args) := by
  refine .of_run ?_
  rw [List.append_assoc, run_append, h.access, Option.bind_some, List.cons_append, run_cons]
  exact hargs

theorem RunsArguments.one {σ : List Frame} {f : Expr} {args : List Expr} {ws : List Word}
    {e : Expr} (h : Runs 0 (.call f args :: σ) ws e) : RunsArguments σ f args ws [e] := by
  obtain ⟨σ', e', hrun, hsettle⟩ := h.closes
  have hclose : settle 0 e' σ' = (e, .call f args :: σ) := hsettle
  rw [RunsArguments, run_append, hrun, Option.bind_some, run_cons]
  simp only [step, hclose, Option.bind_some, run_nil]

theorem RunsArguments.cons {σ : List Frame} {f : Expr} {args es : List Expr} {ws vs : List Word}
    {e : Expr} (h : Runs 0 (.call f args :: σ) ws e)
    (hrest : RunsArguments σ f (args ++ [e]) vs es) :
    RunsArguments σ f args (ws ++ .comma :: vs) (e :: es) := by
  obtain ⟨σ', e', hrun, hsettle⟩ := h.closes
  have hclose : settle 0 e' σ' = (e, .call f args :: σ) := hsettle
  rw [RunsArguments, List.append_assoc, run_append, hrun, Option.bind_some, List.cons_append,
    run_cons]
  simp only [step, hclose, Option.bind_some]
  rw [RunsArguments, List.append_assoc] at hrest
  exact hrest

end Machine

open Machine

mutual

theorem Derives.runs {n : Nat} {ws : List Word} {e : Expr} (h : Derives n ws e) (σ : List Frame)
    (hσ : Blocks n σ) : Runs n σ ws e := by
  match h with
  | .number | .string | .name => exact .of_run rfl
  | .parens h => exact (h.runs _ (blocks_parens 0 σ)).parens
  | .member h => exact (h.runs σ (blocks_of_sign_le (by decide) σ)).member
  | .call h hargs =>
    exact (h.runs σ (blocks_of_sign_le (by decide) σ)).call (hargs.runs σ _)
  | .minus hn h => exact (h.runs _ (blocks_of_sign_le (Nat.le_refl _) _)).minus hn
  | .binary hn hl hr =>
    exact (hl.runs σ (hσ.mono hn)).binary hn hσ (hr.runs _ (blocks_left _ _ σ))

theorem Arguments.runs {vs : List Word} {es : List Expr} (h : Arguments vs es) (σ : List Frame)
    (f : Expr) : RunsArguments σ f [] vs es := by
  match h with
  | .none => rfl
  | .some h => exact h.runs σ f []

theorem Items.runs {vs : List Word} {es : List Expr} (h : Items vs es) (σ : List Frame) (f : Expr)
    (args : List Expr) : RunsArguments σ f args vs es := by
  match h with
  | .one h => exact .one (h.runs _ (blocks_call 0 f args σ))
  | .cons h hs => exact .cons (h.runs _ (blocks_call 0 f args σ)) (hs.runs σ f _)

end

theorem Derives.unique {ws : List Word} {e e' : Expr} (h : Derives 0 ws e) (h' : Derives 0 ws e') :
    e = e' := by
  have hblocks : Blocks 0 [] := fun _ _ _ => rfl
  obtain ⟨σ, l, hrun, hsettle⟩ := (h.runs [] hblocks).closes
  obtain ⟨σ', l', hrun', hsettle'⟩ := (h'.runs [] hblocks).closes
  rw [hrun, Option.some.injEq, Prod.mk.injEq, Mode.after.injEq] at hrun'
  rw [← hrun'.1, ← hrun'.2, hsettle] at hsettle'
  exact congrArg Prod.fst hsettle'

end StructLang.Script
