import StructLang.Code.Dump
import StructLang.Proofs.Code.Summing
import StructLang.Proofs.SExpr.Words
import StructLang.Script.Module
import StructLang.ThreeAddress

namespace StructLang

namespace Code

mutual

def literals : Code → List Value
  | .literal v _ _ => [v]
  | .binary _ l r _ => l.literals ++ r.literals
  | .call f args _ _ => f.literals ++ literalsAll args
  | .member o _ _ => o.literals
  | .expr e _ | .ret e _ => e.literals
  | .define _ _ _ body _ _ => literalsAll body
  | .program ss _ _ => literalsAll ss
  | _ => []

def literalsAll : List Code → List Value
  | [] => []
  | c :: cs => c.literals ++ literalsAll cs

end

theorem literalsAll_eq_flatMap (cs : List Code) : literalsAll cs = cs.flatMap literals := by
  induction cs with
  | nil => rfl
  | cons c cs ih => rw [literalsAll, ih, List.flatMap_cons]

theorem scripts_eq_mapM (cs : List Code) : scripts cs = cs.mapM script := by
  induction cs with
  | nil => rfl
  | cons c cs ih => rw [scripts, ih, List.mapM_cons]

theorem dumpAll_eq_mapM (places : Bool) (cs : List Code) :
    dumpAll places cs = cs.mapM (dump places) := by
  induction cs with
  | nil => rfl
  | cons c cs ih => rw [dumpAll, ih, List.mapM_cons]

def IsWritable (c : Code) : Prop := ∀ v ∈ c.literals, v.isWritable

theorem forall_mem_literalsAll {P : Value → Prop} {cs : List Code} :
    (∀ v ∈ literalsAll cs, P v) ↔ ∀ c ∈ cs, ∀ v ∈ c.literals, P v := by
  rw [literalsAll_eq_flatMap, List.forall_mem_flatMap]

def IsScripted (c : Code) : Prop :=
  Settles c.script c.IsWritable (fun _ => True) (· = .unwritable)

theorem scripts_settles {cs : List Code} (h : ∀ c ∈ cs, c.IsScripted) :
    Settles (scripts cs) (∀ c ∈ cs, c.IsWritable) (fun _ => True) (· = .unwritable) := by
  rw [scripts_eq_mapM]
  exact (Settles.mapM h).gives fun _ _ => trivial

theorem IsExpr.isScripted {c : Code} (h : c.IsExpr) : c.IsScripted := by
  rw [IsScripted, IsWritable]
  induction h with
  | number _ | text =>
    rw [script, literals]
    exact (Value.script_settles _).congr (by simp)
  | name => exact .ok (by simp [literals]) trivial
  | binary _ _ ihl ihr =>
    rw [script]
    exact (ihl.bind fun _ _ => ihr.bind fun _ _ => .ok trivial trivial).congr
      (by simp [literals, or_imp, forall_and])
  | call _ _ ihf ihargs =>
    rw [script]
    refine ((scripts_settles ihargs).bind fun _ _ =>
      ihf.bind fun _ _ => .ok trivial trivial).congr ?_
    simp only [literals, List.forall_mem_append, forall_mem_literalsAll, IsWritable]
    tauto
  | member _ ih =>
    rw [script, literals]
    exact ih.andThen fun _ _ => .ok trivial trivial

theorem IsStatement.isScripted {c : Code} (h : c.IsStatement) : c.IsScripted := by
  rw [IsScripted, IsWritable]
  cases h with
  | ret h | expr h =>
    rw [script, literals]
    exact h.isScripted.andThen fun _ _ => .ok trivial trivial

end Code

namespace ThreeAddress

open Code

theorem emitAll_eq_mapM (cs : List Code) : emitAll cs = cs.mapM emit := by
  induction cs with
  | nil => rfl
  | cons c cs ih => rw [emitAll, ih, List.mapM_cons]

def IsEmitted (c : Code) : Prop :=
  SettlesM (emit c) c.IsWritable (fun _ => True) (· = .unwritable)

theorem emitAll_settles {cs : List Code} (h : ∀ c ∈ cs, IsEmitted c) :
    SettlesM (emitAll cs) (∀ v ∈ literalsAll cs, v.isWritable) (fun _ => True)
      (· = .unwritable) := by
  rw [emitAll_eq_mapM]
  exact ((SettlesM.mapM h).imp fun _ _ => trivial).congr forall_mem_literalsAll.symm

variable {E : Fault → Prop}

theorem emitLine_settles (l : Line) : SettlesM (emitLine l) True (fun _ => True) E :=
  .modify trivial

theorem newTemp_settles : SettlesM newTemp True (fun _ => True) E := fun _ => .ok trivial trivial

theorem isEmitted_of_isExpr {c : Code} (h : c.IsExpr) : IsEmitted c := by
  rw [IsEmitted, IsWritable]
  induction h with
  | number _ | text =>
    rw [emit, literals]
    exact ((SettlesM.mk (Value.script_settles _)).bind fun _ _ => .pure trivial trivial).congr
      (by simp)
  | name => exact .pure nofun trivial
  | binary _ _ ihl ihr =>
    rw [emit, literals]
    exact (ihl.bind fun _ _ => ihr.bind fun _ _ => newTemp_settles.bind fun _ _ =>
      (emitLine_settles _).bind fun _ _ => .pure trivial trivial).congr
        (by simp [or_imp, forall_and])
  | call _ _ ihf ihargs =>
    rw [emit, literals]
    exact (ihf.bind fun _ _ => (emitAll_settles ihargs).bind fun _ _ =>
      newTemp_settles.bind fun _ _ => (emitLine_settles _).bind fun _ _ =>
        .pure trivial trivial).congr (by simp [or_imp, forall_and])
  | member _ ih =>
    rw [emit, literals]
    exact ih.andThen fun _ _ => .pure trivial trivial

theorem isEmitted_of_isStatement {c : Code} (h : c.IsStatement) : IsEmitted c := by
  rw [IsEmitted, IsWritable]
  cases h with
  | ret h | expr h =>
    rw [emit, literals]
    exact ((isEmitted_of_isExpr h).bind fun _ _ => (emitLine_settles _).bind fun _ _ =>
      .pure trivial trivial).congr (by simp [IsWritable])

theorem isEmitted_of_isTopStatement {c : Code} (h : c.IsTopStatement) : IsEmitted c := by
  rw [IsEmitted, IsWritable]
  match h with
  | .alias => exact .pure nofun trivial
  | .declare _ =>
    rw [emit]
    exact ((emitLine_settles _).bind fun _ _ => (emitLine_settles _).bind fun _ _ =>
      .pure trivial trivial).congr (by simp [literals])
  | @IsTopStatement.define params body .. =>
    rename_i hbody
    rw [emit, literals]
    cases body with
    | nil =>
      exact ((emitLine_settles _).bind fun _ _ => (emitLine_settles _).bind fun _ _ =>
        .pure trivial trivial).congr (by simp [literalsAll])
    | cons s ss =>
      have hall := emitAll_settles fun s hs => isEmitted_of_isStatement (hbody s hs)
      exact ((emitLine_settles _).bind fun _ _ => hall.bind fun _ _ =>
        .pure trivial trivial).congr (by simp)
  | .expr h => exact isEmitted_of_isStatement (.expr h)

theorem listing_settles {c : Code} (h : c.IsProgram) :
    Settles (listing c) c.IsWritable (fun _ => True) (· = .unwritable) := by
  cases h with
  | @program ss file place hss =>
    have hall := emitAll_settles fun s hs => isEmitted_of_isTopStatement (hss s hs)
    have hemit : IsEmitted (.program ss file place) := by
      rw [IsEmitted, IsWritable, emit, literals]
      exact hall.andThen fun _ _ => .pure trivial trivial
    have hrun : Settles (run (.program ss file place)).1 _ _ _ := hemit {}
    rw [listing]
    cases hx : run (.program ss file place) with
    | mk r s =>
      rw [hx] at hrun
      cases r with
      | ok x => exact .ok (hrun.of_ok rfl).1 trivial
      | error e => exact .error (hrun.of_error rfl).1 (hrun.of_error rfl).2

end ThreeAddress

namespace SExpr

theorem pretty_yields {w : Writer} (hw : w.IsSafe) (l : Layout) (level : Int) (e : SExpr) :
    Yields (e.pretty w l level) (fun _ => True) (· = .unwritable) := by
  match e with
  | .atom v =>
    rw [pretty, prettyAtom.eq_def]
    split
    · exact .ok trivial
    · exact .ok trivial
    · exact hw _
    · exact v.listing_settles.yields
  | .symbol s => exact .ok trivial
  | .list items =>
    rw [pretty, prettyAll_eq_mapM]
    exact (Yields.mapM fun e _ => e.pretty_yields hw l (level + 1)).bind fun _ _ => .ok trivial

end SExpr

namespace Code

variable {places : Bool} {E : Fault → Prop}

theorem dumpAll_yields {cs : List Code}
    (h : ∀ c ∈ cs, Yields (c.dump places) (fun _ => True) E) :
    Yields (dumpAll places cs) (fun _ => True) E := by
  rw [dumpAll_eq_mapM]
  exact (Yields.mapM h).mono (fun _ _ => trivial) fun _ => id

theorem IsExpr.dump_yields {c : Code} (h : c.IsExpr) :
    Yields (c.dump places) (fun _ => True) E := by
  induction h with
  | number _ | text | name => exact .ok trivial
  | binary _ _ ihl ihr =>
    rw [dump]
    exact ihl.bind fun _ _ => ihr.bind fun _ _ => .ok trivial
  | call _ _ ihf ihargs =>
    rw [dump]
    exact ihf.bind fun _ _ => (dumpAll_yields ihargs).bind fun _ _ => .ok trivial
  | member _ ih =>
    rw [dump]
    exact ih.bind fun _ _ => .ok trivial

theorem IsParam.dump_yields {c : Code} (h : c.IsParam) :
    Yields (c.dump places) (fun _ => True) E := by
  cases h
  exact .ok trivial

theorem IsStatement.dump_yields {c : Code} (h : c.IsStatement) :
    Yields (c.dump places) (fun _ => True) E := by
  cases h with
  | ret h | expr h =>
    rw [dump]
    exact h.dump_yields.bind fun _ _ => .ok trivial

theorem IsTopStatement.dump_yields {c : Code} (h : c.IsTopStatement) :
    Yields (c.dump places) (fun _ => True) E := by
  match h with
  | .alias => exact .ok trivial
  | .declare hparams =>
    rw [dump]
    exact (dumpAll_yields fun p hp => (hparams p hp).dump_yields).bind fun _ _ => .ok trivial
  | .define hparams hbody =>
    rw [dump]
    exact (dumpAll_yields fun p hp => (hparams p hp).dump_yields).bind fun _ _ =>
      (dumpAll_yields fun s hs => (hbody s hs).dump_yields).bind fun _ _ => .ok trivial
  | .expr h => exact (IsStatement.expr h).dump_yields

theorem IsProgram.dump_yields {c : Code} (h : c.IsProgram) :
    Yields (c.dump places) (fun _ => True) E := by
  cases h with
  | program hss =>
    rw [dump]
    exact (dumpAll_yields fun s hs => (hss s hs).dump_yields).bind fun _ _ => .ok trivial

end Code

end StructLang
