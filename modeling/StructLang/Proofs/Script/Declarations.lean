import StructLang.Proofs.Code.Folding
import StructLang.Proofs.Script.Functions
import StructLang.Typing

namespace StructLang

open Script

def Code.paramType? : Code → Option Ty
  | .param _ t _ => some t
  | _ => none

def Code.resultType? : Code → Option Ty
  | .declare _ _ t _ _ | .define _ _ t _ _ _ => some t
  | _ => none

structure Declaration.Agrees (d : Declaration) (f : Code) : Prop where
  params : (functionParams f).map Code.paramType? = d.params.map Typing.boundType?
  names : (functionParams f).map Code.ownName? = d.params.map Typing.boundName?
  result : f.resultType? = some d.result
  body : hasBody f = d.bodied

namespace Tree

def declaration? : Tree → Option (String × Declaration)
  | .declare n params result _ => some (n, ⟨params, result, false⟩)
  | .define n params result _ _ => some (n, ⟨params, result, true⟩)
  | _ => none

def declarations (t : Tree) : List (String × Declaration) := t.statements.filterMap declaration?

def HasStatements : Tree → Prop
  | .define _ _ _ body _ => body ≠ []
  | _ => True

variable {N : String → Prop} {t : Tree} {c c' : Code}

theorem map_of_lowerAll {γ : Type} {f : Code → γ} {g : Tree → γ}
    (hfg : ∀ n type place, f (.param n type place) = g (.param n type place)) {ps : List Tree}
    {qs : List Code} (h : ∀ p ∈ ps, p.IsParam) (hlower : lowerAll ps = .ok qs) :
    qs.map f = ps.map g := by
  induction ps generalizing qs with
  | nil =>
    cases hlower
    rfl
  | cons p ps ih =>
    rw [List.forall_mem_cons] at h
    obtain ⟨⟨_⟩, hps⟩ := h
    obtain ⟨q, hq, hlower⟩ := bind_eq_ok.1 hlower
    obtain ⟨qs, hqs, hlower⟩ := bind_eq_ok.1 hlower
    cases hq
    cases hlower
    rw [List.map_cons, List.map_cons, ih hps hqs, hfg]

theorem lowerAll_ne_nil {ts : List Tree} {cs : List Code} (h : ts ≠ [])
    (hlower : lowerAll ts = .ok cs) : cs ≠ [] := by
  cases ts with
  | nil => exact absurd rfl h
  | cons t ts =>
    obtain ⟨c, _, hlower⟩ := bind_eq_ok.1 hlower
    obtain ⟨cs, _, hlower⟩ := bind_eq_ok.1 hlower
    cases hlower
    simp

theorem IsTopStatement.agrees (h : t.IsTopStatement N) (hbody : t.HasStatements)
    (hlower : t.lower = .ok c) (hfolds : c.Folds c') :
    (t.declaration? = none ∧ isFunction c' = false) ∨
      ∃ d, t.declaration? = some (functionName c', d) ∧ isFunction c' ∧ d.Agrees c' := by
  match h with
  | .alias _ =>
    cases hlower
    cases hfolds
    exact .inl ⟨rfl, rfl⟩
  | .expr _ _ =>
    obtain ⟨e, _, hlower⟩ := bind_eq_ok.1 hlower
    cases hlower
    cases hfolds
    exact .inl ⟨rfl, rfl⟩
  | .declare hparams _ =>
    obtain ⟨ps, hps, hlower⟩ := bind_eq_ok.1 hlower
    cases hlower
    cases hfolds
    exact .inr ⟨_, rfl, rfl, map_of_lowerAll (fun _ _ _ => rfl) hparams hps,
      map_of_lowerAll (fun _ _ _ => rfl) hparams hps, rfl, rfl⟩
  | .define hparams _ _ =>
    obtain ⟨ps, hps, hlower⟩ := bind_eq_ok.1 hlower
    obtain ⟨ss, hss, hlower⟩ := bind_eq_ok.1 hlower
    cases hlower
    cases hfolds with
    | emptied => exact absurd rfl (lowerAll_ne_nil hbody hss)
    | define hall =>
      cases hall
      exact .inr ⟨_, rfl, rfl, map_of_lowerAll (fun _ _ _ => rfl) hparams hps,
        map_of_lowerAll (fun _ _ _ => rfl) hparams hps, rfl, rfl⟩

theorem filterMap_declaration?_related {ss : List Tree} {cs cs' : List Code}
    (hss : ∀ s ∈ ss, s.IsTopStatement N ∧ s.HasStatements) (hlower : lowerAll ss = .ok cs)
    (hfolds : Code.FoldsAll cs cs') :
    List.Forall₂ (Table.Related Declaration.Agrees) (ss.filterMap declaration?)
      ((cs'.filter isFunction).map fun f => (functionName f, f)) := by
  induction ss generalizing cs cs' with
  | nil =>
    cases hlower
    cases hfolds
    exact .nil
  | cons s ss ih =>
    rw [List.forall_mem_cons] at hss
    obtain ⟨c, hc, hlower⟩ := bind_eq_ok.1 hlower
    obtain ⟨cs, hcs, hlower⟩ := bind_eq_ok.1 hlower
    cases hlower
    cases hfolds with
    | cons hfold hfolds =>
      have htail := ih hss.2 hcs hfolds
      obtain ⟨hnone, hfun⟩ | ⟨d, hsome, hfun, hagrees⟩ := hss.1.1.agrees hss.1.2 hc hfold
      · rwa [List.filterMap_cons_none hnone, List.filter_cons_of_neg (by simp [hfun])]
      · rw [List.filterMap_cons_some hsome, List.filter_cons_of_pos hfun]
        exact .cons ⟨rfl, hagrees⟩ htail

theorem IsProgram.declarations_related (h : t.IsProgram N)
    (hbody : ∀ s ∈ t.statements, s.HasStatements) (hlower : t.lower = .ok c)
    (hfolds : c.Folds c') :
    List.Forall₂ (Table.Related Declaration.Agrees) t.declarations
      ((functions c').map fun f => (functionName f, f)) := by
  cases h with
  | program hss =>
    obtain ⟨cs, hcs, hlower⟩ := bind_eq_ok.1 hlower
    cases hlower
    cases hfolds with
    | program hfolds =>
      exact filterMap_declaration?_related (fun s hs => ⟨hss s hs, hbody s hs⟩) hcs hfolds

end Tree

end StructLang
