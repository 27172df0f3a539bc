import StructLang.Code.Usage
import StructLang.Proofs.Code.Shape

namespace StructLang

open Code

theorem toList_filter (o : Option String) (p : String → Bool) :
    (o.filter p).toList = o.toList.filter p := by
  cases o with
  | none => rfl
  | some a => by_cases h : p a <;> simp [Option.filter, h]

namespace Tree

variable {N : String → Prop} {t : Tree} {c : Code}

def libraryCalls (t : Tree) : List String := t.callees.filter Library.reserved

theorem libraryCalls_eq_append (t : Tree) :
    t.libraryCalls = t.called?.toList.filter Library.reserved ++
      t.children.flatMap libraryCalls := by
  rw [libraryCalls, callees_eq_append, List.filter_append, List.filter_flatMap]
  rfl

theorem IsExpr.calleeName?_of_lower (h : t.IsExpr N) (hlower : t.lower = .ok c) :
    c.calleeName? = t.calleeName? := by
  cases h with
  | string | name =>
    cases hlower
    rfl
  | number | member =>
    obtain ⟨_, _, hlower⟩ := bind_eq_ok.1 hlower
    cases hlower
    rfl
  | binary | call =>
    obtain ⟨_, _, hlower⟩ := bind_eq_ok.1 hlower
    obtain ⟨_, _, hlower⟩ := bind_eq_ok.1 hlower
    cases hlower
    rfl

theorem builtinCallsAll_of_lowerAll {ts : List Tree} {cs : List Code}
    (h : ∀ t ∈ ts, ∀ c, t.lower = .ok c → c.builtinCalls = t.libraryCalls)
    (hlower : lowerAll ts = .ok cs) : builtinCallsAll cs = ts.flatMap libraryCalls := by
  induction ts generalizing cs with
  | nil =>
    cases hlower
    rfl
  | cons t ts ih =>
    obtain ⟨c, hc, hlower⟩ := bind_eq_ok.1 hlower
    obtain ⟨cs, hcs, hlower⟩ := bind_eq_ok.1 hlower
    cases hlower
    rw [List.forall_mem_cons] at h
    rw [builtinCallsAll, h.1 c hc, ih h.2 hcs, List.flatMap_cons]

theorem IsExpr.builtinCalls_of_lower (h : t.IsExpr N) (hlower : t.lower = .ok c) :
    c.builtinCalls = t.libraryCalls := by
  rw [libraryCalls_eq_append]
  induction h generalizing c with
  | string | name =>
    cases hlower
    rfl
  | number =>
    obtain ⟨v, _, hlower⟩ := bind_eq_ok.1 hlower
    cases hlower
    rfl
  | binary _ _ ihl ihr =>
    obtain ⟨l, hl, hlower⟩ := bind_eq_ok.1 hlower
    obtain ⟨r, hr, hlower⟩ := bind_eq_ok.1 hlower
    cases hlower
    rw [builtinCalls, ihl hl, ihr hr, ← libraryCalls_eq_append, ← libraryCalls_eq_append]
    simp [called?, children]
  | call hf _ ihf ihargs =>
    obtain ⟨f, hcallee, hlower⟩ := bind_eq_ok.1 hlower
    obtain ⟨args, hall, hlower⟩ := bind_eq_ok.1 hlower
    cases hlower
    simp only [← libraryCalls_eq_append] at ihf ihargs
    rw [builtinCalls, hf.calleeName?_of_lower hcallee, ihf hcallee, toList_filter,
      builtinCallsAll_of_lowerAll (fun a ha _ => ihargs a ha) hall]
    simp [called?, children]
  | member _ ih =>
    obtain ⟨o, ho, hlower⟩ := bind_eq_ok.1 hlower
    cases hlower
    rw [builtinCalls, ih ho, ← libraryCalls_eq_append]
    simp [called?, children]

theorem IsStatement.builtinCalls_of_lower (h : t.IsStatement N) (hlower : t.lower = .ok c) :
    c.builtinCalls = t.libraryCalls := by
  rw [libraryCalls_eq_append]
  cases h with
  | ret h | expr h =>
    obtain ⟨e, he, hlower⟩ := bind_eq_ok.1 hlower
    cases hlower
    rw [builtinCalls, h.builtinCalls_of_lower he]
    simp [called?, children]

theorem IsParam.libraryCalls_eq_nil (h : t.IsParam) : t.libraryCalls = [] := by
  cases h
  rfl

theorem IsTopStatement.builtinCalls_of_lower (h : t.IsTopStatement N) (hlower : t.lower = .ok c) :
    c.builtinCalls = t.libraryCalls := by
  rw [libraryCalls_eq_append]
  have hnil {params : List Tree} (hparams : ∀ p ∈ params, p.IsParam) :
      params.flatMap libraryCalls = [] :=
    List.flatMap_eq_nil_iff.2 fun p hp => (hparams p hp).libraryCalls_eq_nil
  match h with
  | .alias _ =>
    cases hlower
    rfl
  | .declare hparams _ =>
    obtain ⟨ps, _, hlower⟩ := bind_eq_ok.1 hlower
    cases hlower
    simp [builtinCalls, called?, children, hnil hparams]
  | .define hparams _ hbody =>
    obtain ⟨ps, _, hlower⟩ := bind_eq_ok.1 hlower
    obtain ⟨ss, hss, hlower⟩ := bind_eq_ok.1 hlower
    cases hlower
    rw [builtinCalls, builtinCallsAll_of_lowerAll
      (fun s hs _ => (hbody s hs).builtinCalls_of_lower) hss]
    simp [called?, children, hnil hparams]
  | .expr h _ =>
    obtain ⟨e, he, hlower⟩ := bind_eq_ok.1 hlower
    cases hlower
    rw [builtinCalls, h.builtinCalls_of_lower he]
    simp [called?, children]

theorem IsProgram.builtinCalls_of_lower (h : t.IsProgram N) (hlower : t.lower = .ok c) :
    c.builtinCalls = t.libraryCalls := by
  rw [libraryCalls_eq_append]
  cases h with
  | program hss =>
    obtain ⟨ss, hall, hlower⟩ := bind_eq_ok.1 hlower
    cases hlower
    rw [builtinCalls, builtinCallsAll_of_lowerAll
      (fun s hs _ => (hss s hs).builtinCalls_of_lower) hall]
    simp [called?, children]

end Tree

namespace Code

theorem builtinCallsAll_eq_flatMap (cs : List Code) :
    builtinCallsAll cs = cs.flatMap builtinCalls := by
  induction cs with
  | nil => rfl
  | cons c cs ih => rw [builtinCallsAll, ih, List.flatMap_cons]

theorem Folds.calleeName?_eq {c c' : Code} (h : Folds c c') : c'.calleeName? = c.calleeName? := by
  cases h <;> rfl

mutual

theorem Folds.builtinCalls_eq {c c' : Code} (h : Folds c c') :
    c'.builtinCalls = c.builtinCalls := by
  match h with
  | .literal | .name | .libraryCall | .member | .param | .alias | .declare | .emptied => rfl
  | .sum hl hr _ _ =>
    -- The operands are folded to literals, so there is no call in them.
    have hleft := hl.builtinCalls_eq
    have hright := hr.builtinCalls_eq
    rw [builtinCalls, ← hleft, ← hright]
    rfl
  | .binary hl hr _ => rw [builtinCalls, builtinCalls, hl.builtinCalls_eq, hr.builtinCalls_eq]
  | .call hf hargs =>
    rw [builtinCalls, builtinCalls, hf.calleeName?_eq, hf.builtinCalls_eq,
      hargs.builtinCallsAll_eq]
  | .expr he | .ret he =>
    rw [builtinCalls, builtinCalls]
    exact he.builtinCalls_eq
  | .define hbody =>
    rw [builtinCalls, builtinCalls]
    exact hbody.builtinCallsAll_eq
  | .program hss =>
    rw [builtinCalls, builtinCalls]
    exact hss.builtinCallsAll_eq

theorem FoldsAll.builtinCallsAll_eq {cs cs' : List Code} (h : FoldsAll cs cs') :
    builtinCallsAll cs' = builtinCallsAll cs := by
  match h with
  | .nil => rfl
  | .cons h hs => rw [builtinCallsAll, builtinCallsAll, h.builtinCalls_eq, hs.builtinCallsAll_eq]

end

end Code

end StructLang
