import StructLang.Code.Lower
import StructLang.Proofs.Code.Folding
import StructLang.Proofs.Outcome

namespace StructLang

namespace Value

def isNumber : Value → Bool
  | .int _ | .real _ => true
  | _ => false

def isText : Value → Bool
  | .text _ => true
  | _ => false

def areAddable (a b : Value) : Bool := (a.isNumber && b.isNumber) || (a.isText && b.isText)

def suits (v : Value) (type : Ty) : Bool :=
  (!type.isNumber || v.isNumber) && (!type.isString || v.isText)

theorem isNumber_of_add {a b v : Value} (ha : a.isNumber) (hb : b.isNumber)
    (h : a.add b = .ok v) : v.isNumber := by
  cases a with
  | int m =>
    cases b with
    | int n =>
      cases h
      rfl
    | real d =>
      obtain ⟨_, _, h⟩ := bind_eq_ok.1 h
      cases h
      rfl
    | _ => cases hb
  | real d =>
    cases b with
    | int n =>
      obtain ⟨_, _, h⟩ := bind_eq_ok.1 h
      cases h
      rfl
    | real d' =>
      cases h
      rfl
    | _ => cases hb
  | _ => cases ha

theorem isText_of_add {a b v : Value} (ha : a.isText) (hb : b.isText) (h : a.add b = .ok v) :
    v.isText := by
  cases a with
  | text s =>
    cases b with
    | text t =>
      cases h
      rfl
    | _ => cases hb
  | _ => cases ha

end Value

namespace Code

/-- A sum of values of literals of one type is the sum that the folder computes; all else is
free. -/
structure Interpretation (D : Type) where
  literal : Value → D
  name : String → D
  apply : Operator → D → D → D
  call : Bool → D → List D → D
  member : D → String → D
  apply_add : ∀ a b v, a.areAddable b → a.add b = .ok v →
    apply .add (literal a) (literal b) = literal v

variable {D : Type}

mutual

def eval (I : Interpretation D) : Code → Option D
  | .literal v _ _ => some (I.literal v)
  | .name n _ => some (I.name n)
  | .binary op left right _ => do return I.apply op (← left.eval I) (← right.eval I)
  | .call callee args builtin _ => do return I.call builtin (← callee.eval I) (← evalAll I args)
  | .member object property _ => do return I.member (← object.eval I) property
  | _ => none

def evalAll (I : Interpretation D) : List Code → Option (List D)
  | [] => some []
  | c :: cs => do return (← c.eval I) :: (← evalAll I cs)

end

mutual

/-- One node does what another does: it is of the same kind at the same place, with the same names,
parameters and types, and its expressions have the same values. -/
def Preserved (I : Interpretation D) : Code → Code → Prop
  | .expr e place, c => ∃ e', c = .expr e' place ∧ e'.eval I = e.eval I
  | .ret e place, c => ∃ e', c = .ret e' place ∧ e'.eval I = e.eval I
  | .alias n type place, c => c = .alias n type place
  | .param n type place, c => c = .param n type place
  | .declare n params result _ place, c => ∃ builtin, c = .declare n params result builtin place
  | .define n params result body _ place, c =>
    ∃ body' builtin, c = .define n params result body' builtin place ∧ PreservedAll I body body'
  | .program ss file place, c => ∃ ss', c = .program ss' file place ∧ PreservedAll I ss ss'
  | .unruled _, _ | .nothing, _ => False
  | e, e' => e'.loc = e.loc ∧ e'.eval I = e.eval I

def PreservedAll (I : Interpretation D) : List Code → List Code → Prop
  | [], cs' => cs' = []
  | c :: cs, cs' => ∃ c' rest, cs' = c' :: rest ∧ Preserved I c c' ∧ PreservedAll I cs rest

end

mutual

def literalsSuit : Code → Bool
  | .literal v type _ => v.suits type
  | .binary _ left right _ => left.literalsSuit && right.literalsSuit
  | .call callee args _ _ => callee.literalsSuit && allLiteralsSuit args
  | .expr e _ | .ret e _ => e.literalsSuit
  | .define _ _ _ body _ _ => allLiteralsSuit body
  | .program ss _ _ => allLiteralsSuit ss
  | _ => true

def allLiteralsSuit : List Code → Bool
  | [] => true
  | c :: cs => c.literalsSuit && allLiteralsSuit cs

end

theorem suits_of_isNumber {v : Value} {type : Ty} (h : type.isNumber) :
    v.suits type = v.isNumber := by
  have hstring : type.isString = false := by
    cases type <;> simp_all [Ty.isNumber, Ty.isString]
  simp [Value.suits, h, hstring]

theorem suits_of_isString {v : Value} {type : Ty} (h : type.isString) :
    v.suits type = v.isText := by
  have hnumber : type.isNumber = false := by
    cases type <;> simp_all [Ty.isNumber, Ty.isString]
  simp [Value.suits, h, hnumber]

theorem sum_of_foldable {a b v : Value} {type type' : Ty} (h : foldable type type')
    (ha : a.suits type) (hb : b.suits type') (hv : a.add b = .ok v) :
    a.areAddable b ∧ v.suits type := by
  obtain ⟨hl, hr⟩ | ⟨hl, hr⟩ := by simpa [foldable] using h
  · rw [suits_of_isNumber hl] at ha ⊢
    rw [suits_of_isNumber hr] at hb
    exact ⟨by simp [Value.areAddable, ha, hb], Value.isNumber_of_add ha hb hv⟩
  · rw [suits_of_isString hl] at ha ⊢
    rw [suits_of_isString hr] at hb
    exact ⟨by simp [Value.areAddable, ha, hb], Value.isText_of_add ha hb hv⟩

variable {I : Interpretation D}

mutual

theorem Folds.sound {c c' : Code} (h : Folds c c') (hc : c.literalsSuit) :
    c'.literalsSuit ∧ c'.eval I = c.eval I := by
  match h with
  | .literal => exact ⟨hc, rfl⟩
  | .name => exact ⟨hc, rfl⟩
  | .sum hl hr hfoldable hv =>
    obtain ⟨hleft, hright⟩ := Bool.and_eq_true_iff.1 hc
    obtain ⟨hsuitl, hevall⟩ := hl.sound hleft
    obtain ⟨hsuitr, hevalr⟩ := hr.sound hright
    obtain ⟨hadd, hsuits⟩ := sum_of_foldable hfoldable hsuitl hsuitr hv
    refine ⟨hsuits, ?_⟩
    rw [eval, eval, ← hevall, ← hevalr]
    exact congrArg some (I.apply_add _ _ _ hadd hv).symm
  | .binary hl hr _ =>
    obtain ⟨hleft, hright⟩ := Bool.and_eq_true_iff.1 hc
    obtain ⟨hsuitl, hevall⟩ := hl.sound hleft
    obtain ⟨hsuitr, hevalr⟩ := hr.sound hright
    refine ⟨Bool.and_eq_true_iff.2 ⟨hsuitl, hsuitr⟩, ?_⟩
    rw [eval, eval, hevall, hevalr]
  | .libraryCall => exact ⟨hc, rfl⟩
  | .call hf hargs =>
    obtain ⟨hcallee, hall⟩ := Bool.and_eq_true_iff.1 hc
    obtain ⟨hsuitf, hevalf⟩ := hf.sound hcallee
    obtain ⟨hsuita, hevala⟩ := hargs.sound hall
    refine ⟨Bool.and_eq_true_iff.2 ⟨hsuitf, hsuita⟩, ?_⟩
    rw [eval, eval, hevalf, hevala]
  | .member => exact ⟨hc, rfl⟩
  | .param => exact ⟨hc, rfl⟩
  | .expr he => exact ⟨(he.sound hc).1, rfl⟩
  | .ret he => exact ⟨(he.sound hc).1, rfl⟩
  | .alias => exact ⟨hc, rfl⟩
  | .declare => exact ⟨hc, rfl⟩
  | .emptied => exact ⟨hc, rfl⟩
  | .define hbody => exact ⟨(hbody.sound hc).1, rfl⟩
  | .program hss => exact ⟨(hss.sound hc).1, rfl⟩

theorem FoldsAll.sound {cs cs' : List Code} (h : FoldsAll cs cs') (hc : allLiteralsSuit cs) :
    allLiteralsSuit cs' ∧ evalAll I cs' = evalAll I cs := by
  match h with
  | .nil => exact ⟨rfl, rfl⟩
  | .cons h hs =>
    obtain ⟨hhead, htail⟩ := Bool.and_eq_true_iff.1 hc
    obtain ⟨hsuit, heval⟩ := h.sound hhead
    obtain ⟨hsuits, hevals⟩ := hs.sound htail
    refine ⟨Bool.and_eq_true_iff.2 ⟨hsuit, hsuits⟩, ?_⟩
    rw [evalAll, evalAll, heval, hevals]

end

mutual

theorem Folds.preserved {c c' : Code} (h : Folds c c') (hc : c.literalsSuit) :
    Preserved I c c' := by
  match h with
  | .literal => exact ⟨rfl, rfl⟩
  | .name => exact ⟨rfl, rfl⟩
  | .sum hl hr hfoldable hv =>
    exact ⟨rfl, (Folds.sound (.sum hl hr hfoldable hv) hc).2⟩
  | .binary hl hr hne => exact ⟨rfl, (Folds.sound (.binary hl hr hne) hc).2⟩
  | .libraryCall => exact ⟨rfl, rfl⟩
  | .call hf hargs => exact ⟨rfl, (Folds.sound (.call hf hargs) hc).2⟩
  | .member => exact ⟨rfl, rfl⟩
  | .param => rfl
  | .expr he => exact ⟨_, rfl, (he.sound hc).2⟩
  | .ret he => exact ⟨_, rfl, (he.sound hc).2⟩
  | .alias => rfl
  | .declare => exact ⟨true, rfl⟩
  | .emptied => exact ⟨[], true, rfl, rfl⟩
  | .define hbody => exact ⟨_, _, rfl, hbody.preserved hc⟩
  | .program hss => exact ⟨_, rfl, hss.preserved hc⟩

theorem FoldsAll.preserved {cs cs' : List Code} (h : FoldsAll cs cs') (hc : allLiteralsSuit cs) :
    PreservedAll I cs cs' := by
  match h with
  | .nil => rfl
  | .cons h hs =>
    obtain ⟨hhead, htail⟩ := Bool.and_eq_true_iff.1 hc
    exact ⟨_, _, rfl, h.preserved hhead, hs.preserved htail⟩

end

end Code

theorem Value.isNumber_of_ofNumeral {text : String} {v : Value} (h : ofNumeral text = .ok v) :
    v.isNumber := by
  rw [ofNumeral] at h
  split at h
  · split at h
    · cases h
      rfl
    · cases h
  · split at h
    · cases h
      rfl
    · cases h

namespace Tree

open Code

mutual

theorem literalsSuit_of_lower {t : Tree} {c : Code} (h : t.lower = .ok c) : c.literalsSuit := by
  match t with
  | .number text place =>
    rw [lower] at h
    obtain ⟨v, hv, h⟩ := bind_eq_ok.1 h
    cases h
    rw [literalsSuit, suits_of_isNumber rfl]
    exact Value.isNumber_of_ofNumeral hv
  | .string text place =>
    rw [lower] at h
    cases h
    rw [literalsSuit, suits_of_isString rfl]
    rfl
  | .name n place =>
    rw [lower] at h
    cases h
    rfl
  | .binary op left right place =>
    rw [lower] at h
    obtain ⟨l, hl, h⟩ := bind_eq_ok.1 h
    obtain ⟨r, hr, h⟩ := bind_eq_ok.1 h
    cases h
    exact Bool.and_eq_true_iff.2 ⟨literalsSuit_of_lower hl, literalsSuit_of_lower hr⟩
  | .call callee args place =>
    rw [lower] at h
    obtain ⟨f, hf, h⟩ := bind_eq_ok.1 h
    obtain ⟨as, has, h⟩ := bind_eq_ok.1 h
    cases h
    exact Bool.and_eq_true_iff.2 ⟨literalsSuit_of_lower hf, allLiteralsSuit_of_lowerAll has⟩
  | .member object property place =>
    rw [lower] at h
    obtain ⟨o, _, h⟩ := bind_eq_ok.1 h
    cases h
    rfl
  | .param n type place =>
    rw [lower] at h
    cases h
    rfl
  | .alias n type place =>
    rw [lower] at h
    cases h
    rfl
  | .ret e place =>
    rw [lower] at h
    obtain ⟨e', he, h⟩ := bind_eq_ok.1 h
    cases h
    rw [literalsSuit]
    exact literalsSuit_of_lower he
  | .expr e ascribed place =>
    rw [lower] at h
    obtain ⟨e', he, h⟩ := bind_eq_ok.1 h
    cases h
    rw [literalsSuit]
    exact literalsSuit_of_lower he
  | .declare n params result place =>
    rw [lower] at h
    obtain ⟨ps, _, h⟩ := bind_eq_ok.1 h
    cases h
    rfl
  | .define n params result body place =>
    rw [lower] at h
    obtain ⟨ps, _, h⟩ := bind_eq_ok.1 h
    obtain ⟨ss, hss, h⟩ := bind_eq_ok.1 h
    cases h
    exact allLiteralsSuit_of_lowerAll hss
  | .program ss file place =>
    rw [lower] at h
    obtain ⟨ss', hss, h⟩ := bind_eq_ok.1 h
    cases h
    exact allLiteralsSuit_of_lowerAll hss
  | .unruled place => cases h
  | .stray s => cases h

theorem allLiteralsSuit_of_lowerAll {ts : List Tree} {cs : List Code} (h : lowerAll ts = .ok cs) :
    allLiteralsSuit cs := by
  match ts with
  | [] =>
    cases h
    rfl
  | t :: ts =>
    rw [lowerAll] at h
    obtain ⟨c, hc, h⟩ := bind_eq_ok.1 h
    obtain ⟨cs, hcs, h⟩ := bind_eq_ok.1 h
    cases h
    exact Bool.and_eq_true_iff.2 ⟨literalsSuit_of_lower hc, allLiteralsSuit_of_lowerAll hcs⟩

end

end Tree

namespace Code

/-- Folding a lowered program changes nothing but expressions, and those keep their values. -/
theorem preserved_fold (I : Interpretation D) {t : Tree} {c c' : Code} {tally : Tally}
    (hlower : t.lower = .ok c) (hfold : (c.fold tally).1 = .ok c') : Preserved I c c' :=
  (folds_of_fold hfold).preserved (Tree.literalsSuit_of_lower hlower)

def Interpretation.sums : Interpretation (Option Value) where
  literal := some
  name _ := none
  apply
    | .add, some a, some b => if a.areAddable b then (a.add b).toOption else none
    | _, _, _ => none
  call _ _ _ := none
  member _ _ := none
  apply_add a b v hadd hv := by
    change (if a.areAddable b then (a.add b).toOption else none) = some v
    rw [if_pos hadd, hv]
    rfl

theorem preserved_fold_join :
    let t : Tree := .program [.define "join" [.param "x" .string none] .string
        [.ret (.binary .add (.binary .add (.string "'a'" none) (.string "'b'" none) none)
          (.name "x" none) none) none] none,
      .expr (.call (.name "join" none)
        [.binary .add (.string "'c'" none) (.string "'d'" none) none] none) none none] "main" none
    let c : Code := .program [.define "join" [.param "x" .string none] .string
        [.ret (.binary .add (.binary .add (.literal (.text "a") .string none)
          (.literal (.text "b") .string none) none) (.name "x" none) none) none] false none,
      .expr (.call (.name "join" none) [.binary .add (.literal (.text "c") .string none)
        (.literal (.text "d") .string none) none] false none) none] "main" none
    let c' : Code := .program [.define "join" [.param "x" .string none] .string
        [.ret (.binary .add (.literal (.text "ab") .string none) (.name "x" none) none) none]
        false none,
      .expr (.call (.name "join" none) [.literal (.text "cd") .string none] false none) none]
      "main" none
    t.lower = .ok c ∧ (c.fold {}).1 = .ok c' ∧ Preserved .sums c c' := by
  intro t c c'
  have hlower : t.lower = .ok c := rfl
  have hfold : (c.fold {}).1 = .ok c' := rfl
  exact ⟨hlower, hfold, preserved_fold .sums hlower hfold⟩

end Code

end StructLang
