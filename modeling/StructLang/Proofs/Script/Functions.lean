import StructLang.Proofs.Code.Rendering
import StructLang.Proofs.Table

namespace StructLang

theorem map_eq_map_of_forall₂ {α β γ : Type} {f : α → γ} {g : β → γ} {as : List α} {bs : List β}
    (h : List.Forall₂ (fun a b => g b = f a) as bs) : bs.map g = as.map f := by
  induction h with
  | nil => rfl
  | cons hab _ ih => rw [List.map_cons, List.map_cons, hab, ih]

theorem exists_of_mem_forall₂ {α β : Type} {R : α → β → Prop} {as : List α} {bs : List β}
    (h : List.Forall₂ R as bs) {b : β} (hb : b ∈ bs) : ∃ a ∈ as, R a b := by
  induction h with
  | nil => cases hb
  | cons hab _ ih =>
    obtain rfl | hb := List.mem_cons.1 hb
    · exact ⟨_, List.mem_cons_self, hab⟩
    · obtain ⟨a, ha, hR⟩ := ih hb
      exact ⟨a, List.mem_cons_of_mem _ ha, hR⟩

theorem Library.find?_eq_none_iff {name : String} : find? name = none ↔ ¬reserved name := by
  rw [find?, Table.get?_eq_none_iff, reserved, Table.has, List.contains_iff_mem]

theorem Library.exists_of_reserved {name : String} (h : reserved name) : ∃ s, find? name = some s :=
  Option.ne_none_iff_exists'.1 fun hnone => find?_eq_none_iff.1 hnone h

theorem Library.reserved_of_find? {name : String} {s : Signature} (h : find? name = some s) :
    reserved name := by
  by_contra hname
  cases h.symm.trans (find?_eq_none_iff.2 hname)

namespace Script

open Code

def better (new old : Code) : Bool := hasBody new && !hasBody old

theorem addFunction_eq_keep (t : Table Code) (f : Code) :
    addFunction t f = t.keep better (functionName f, f) := by
  rw [addFunction, Table.keep]
  cases t.get? (functionName f) <;> rfl

theorem chosenFunctions_eq_foldl_keep (fs : List Code) :
    chosenFunctions fs = (fs.map fun f => (functionName f, f)).foldl (Table.keep better) [] := by
  rw [chosenFunctions, List.foldl_map]
  exact congrArg (fs.foldl · []) (funext fun t => funext (addFunction_eq_keep t))

theorem names_chosenFunctions (fs : List Code) :
    (chosenFunctions fs).names = (fs.map functionName).eraseDups := by
  rw [chosenFunctions_eq_foldl_keep, Table.names_foldl_keep, List.map_map]
  rfl

theorem mem_of_mem_chosenFunctions {fs : List Code} {e : String × Code}
    (h : e ∈ chosenFunctions fs) : e.2 ∈ fs ∧ e.1 = functionName e.2 := by
  rw [chosenFunctions_eq_foldl_keep] at h
  obtain ⟨f, hf, rfl⟩ := List.mem_map.1 (Table.mem_of_mem_foldl_keep h)
  exact ⟨hf, rfl⟩

variable {E : Fault → Prop}

theorem paramNames_settles {ps : List Code} (h : ∀ p ∈ ps, p.IsParam) :
    Settles (paramNames ps) True (fun _ => True) E := by
  induction ps with
  | nil => exact .ok trivial trivial
  | cons p ps ih =>
    obtain ⟨hp, hps⟩ := List.forall_mem_cons.1 h
    cases hp
    exact (ih hps).andThen fun _ _ => .ok trivial trivial

theorem isParam_of_mem_functions {program f p : Code} (h : program.IsProgram)
    (hf : f ∈ functions program) (hp : p ∈ functionParams f) : p.IsParam := by
  cases h with
  | program hss =>
    obtain ⟨hmem, hfun⟩ := List.mem_filter.1 hf
    match hss f hmem with
    | .alias | .expr _ => cases hfun
    | .declare hparams => exact hparams p hp
    | .define hparams _ => exact hparams p hp

theorem takenNames_settles {fs : List Code} (h : ∀ f ∈ fs, ∀ p ∈ functionParams f, p.IsParam) :
    Settles (takenNames fs) True (fun _ => True) E := by
  induction fs with
  | nil => exact .ok trivial trivial
  | cons f fs ih =>
    obtain ⟨hf, hfs⟩ := List.forall_mem_cons.1 h
    rw [takenNames]
    exact ((paramNames_settles hf).bind fun _ _ => (ih hfs).bind fun _ _ =>
      .ok trivial trivial).congr (by simp)

theorem emitFunction_settles {f : Code} (h : f.IsTopStatement) (hf : isFunction f)
    (binding : String) :
    Settles (emitFunction binding f) f.IsWritable (fun _ => True) (· = .unwritable) := by
  match h with
  | .alias | .expr _ => cases hf
  | .declare hparams =>
    rw [emitFunction]
    exact ((paramNames_settles hparams).bind fun _ _ => .ok trivial trivial).congr
      (by simp [IsWritable, literals])
  | @IsTopStatement.define params body .. =>
    rename_i hparams hbody
    rw [emitFunction]
    cases body with
    | nil =>
      exact ((paramNames_settles hparams).bind fun _ _ => .ok trivial trivial).congr
        (by simp [IsWritable, literals, literalsAll])
    | cons s ss =>
      have hscripts := scripts_settles fun s hs => (hbody s hs).isScripted
      refine ((paramNames_settles hparams).bind fun _ _ => hscripts.bind fun _ _ =>
        .ok trivial trivial).congr ?_
      simp only [IsWritable, literals, forall_mem_literalsAll, true_and, and_true]

theorem emitStub_settles {name : String} (h : Library.reserved name) (binding : String) :
    Settles (emitStub binding name) True (fun _ => True) E := by
  rw [emitStub]
  split
  · rename_i hnone
    exact absurd h (Library.find?_eq_none_iff.1 hnone)
  · split
    · exact .ok trivial trivial
    · exact .ok trivial trivial

def kept (program : Code) (called : List String) : List Code :=
  ((chosenFunctions (functions program)).filter fun e => !isSkipped called e.1).map Prod.snd

theorem isFunction_of_mem_kept {program f : Code} {called : List String}
    (h : f ∈ kept program called) : f ∈ program.statements ∧ isFunction f := by
  obtain ⟨e, he, rfl⟩ := List.mem_map.1 h
  exact List.mem_filter.1 (mem_of_mem_chosenFunctions (List.mem_filter.1 he).1).1

def emitted (program : Code) (called : List String) : List Code :=
  kept program called ++ program.statements.filter isStatement

theorem bindingName_settles {program : Code} (h : program.IsProgram) (binding : String) :
    Settles (bindingName binding program) True (fun _ => True) E := by
  have htaken := takenNames_settles (E := E) fun f hf p hp => isParam_of_mem_functions h hf hp
  exact htaken.andThen fun _ _ => .ok trivial trivial

theorem exists_of_isAlias {s : Code} (h : isAlias s) : ∃ n t place, s = .alias n t place := by
  cases s <;> cases h
  exact ⟨_, _, _, rfl⟩

theorem scripts_filter_isAlias_settles (ss : List Code) :
    Settles (scripts (ss.filter isAlias)) True (fun _ => True) (· = .unwritable) := by
  have hwritable : ∀ s ∈ ss.filter isAlias, s.IsWritable ∧ s.IsScripted := by
    intro s hs
    obtain ⟨n, t, place, rfl⟩ := exists_of_isAlias (List.mem_filter.1 hs).2
    exact ⟨List.forall_mem_nil _, .ok (List.forall_mem_nil _) trivial⟩
  exact (scripts_settles fun s hs => (hwritable s hs).2).congr
    (iff_true_intro fun s hs => (hwritable s hs).1)

theorem isScripted_of_isStatement {s : Code} (h : s.IsTopStatement) (hs : isStatement s) :
    s.IsScripted := by
  match h with
  | .alias | .declare _ | .define _ _ => cases hs
  | .expr h => exact (IsStatement.expr h).isScripted

theorem ofCode_settles (o : Options) {program : Code} {called : List String}
    (h : program.IsProgram) (hcalled : ∀ n ∈ called, Library.reserved n) :
    Settles (ofCode o program called) (∀ c ∈ emitted program called, c.IsWritable)
      (fun _ => True) (· = .unwritable) := by
  have htop : ∀ s ∈ program.statements, s.IsTopStatement := by
    cases h with
    | program hss => exact hss
  have hdeclared (binding : String) : Settles ((kept program called).mapM (emitFunction binding))
      (∀ f ∈ kept program called, f.IsWritable) (fun bs => ∀ b ∈ bs, True) (· = .unwritable) := by
    refine .mapM fun f hf => ?_
    obtain ⟨hmem, hfun⟩ := isFunction_of_mem_kept hf
    exact emitFunction_settles (htop f hmem) hfun binding
  have hstubs (binding : String) (ns : List String) (hns : ∀ n ∈ ns, Library.reserved n) :
      Settles (ns.mapM (emitStub binding)) True (fun bs => ∀ b ∈ bs, True) (· = .unwritable) :=
    (Settles.mapM fun n hn => emitStub_settles (hns n hn) binding).congr
      (iff_true_intro fun _ _ => trivial)
  have hstatements := scripts_settles fun s (hs : s ∈ program.statements.filter isStatement) =>
    isScripted_of_isStatement (htop s (List.mem_filter.1 hs).1) (List.mem_filter.1 hs).2
  rw [ofCode]
  refine ((bindingName_settles h o.binding).bind fun binding _ =>
    (hdeclared binding).bind fun declared _ =>
    (hstubs binding _ fun n hn => hcalled n (List.mem_filter.1 hn).1).bind fun stubs _ =>
    (scripts_filter_isAlias_settles _).bind fun aliases _ =>
    hstatements.bind fun statements _ => .ok trivial trivial).congr ?_
  simp only [emitted, List.forall_mem_append, true_and, and_true]

/-- A function has the name and as many parameters as its declaration. Only a library function takes
further arguments. -/
structure Emits (f : Code) (g : Function) : Prop where
  name : g.name = functionName f
  params : g.params.length = (functionParams f).length
  rest : ¬Library.reserved (functionName f) → g.rest = none

theorem length_of_paramNames {ps : List Code} {ns : List String} (h : paramNames ps = .ok ns) :
    ns.length = ps.length := by
  induction ps generalizing ns with
  | nil =>
    cases h
    rfl
  | cons p ps ih =>
    rw [paramNames] at h
    split at h
    · obtain ⟨ns, hns, h⟩ := bind_eq_ok.1 h
      cases h
      rw [List.length_cons, List.length_cons, ih hns]
    · cases h

theorem emits_forwarder (binding : String) (f : Code) {params : List String}
    (h : params.length = (functionParams f).length) :
    Emits f (emitFunction.forwarder binding (functionName f) params) := by
  refine ⟨rfl, h, fun hreserved => ?_⟩
  rw [emitFunction.forwarder, Library.find?_eq_none_iff.2 hreserved]
  rfl

theorem emits_of_emitFunction {binding : String} {f : Code} {g : Function}
    (h : emitFunction binding f = .ok g) : Emits f g := by
  cases f with
  | declare name ps result builtin place =>
    obtain ⟨ns, hns, h⟩ := bind_eq_ok.1 h
    cases h
    exact emits_forwarder binding (.declare name ps result builtin place) (length_of_paramNames hns)
  | define name ps result body builtin place =>
    obtain ⟨ns, hns, h⟩ := bind_eq_ok.1 h
    split at h
    · cases h
      exact emits_forwarder binding (.define name ps result body builtin place)
        (length_of_paramNames hns)
    · obtain ⟨lines, _, h⟩ := bind_eq_ok.1 h
      cases h
      exact ⟨rfl, length_of_paramNames hns, fun _ => rfl⟩
  | _ => cases h

theorem name_of_emitStub {binding name : String} {g : Function}
    (h : emitStub binding name = .ok g) : g.name = name := by
  rw [emitStub] at h
  split at h
  · cases h
  · split at h
    · cases h
      rfl
    · cases h
      rfl

def missing (program : Code) (called : List String) : List String :=
  called.filter fun n => !(chosenFunctions (functions program)).has n

def Lists (program : Code) (called : List String) (m : Module) : Prop :=
  ∃ declared stubs, m.functions = declared ++ stubs ∧
    List.Forall₂ Emits (kept program called) declared ∧
    List.Forall₂ (fun n g => g.name = n) (missing program called) stubs

theorem lists_of_ofCode {o : Options} {program : Code} {called : List String} {m : Module}
    (h : ofCode o program called = .ok m) : Lists program called m := by
  obtain ⟨binding, _, h⟩ := bind_eq_ok.1 h
  obtain ⟨declared, hdeclared, h⟩ := bind_eq_ok.1 h
  obtain ⟨stubs, hstubs, h⟩ := bind_eq_ok.1 h
  obtain ⟨aliases, _, h⟩ := bind_eq_ok.1 h
  obtain ⟨statements, _, h⟩ := bind_eq_ok.1 h
  cases h
  exact ⟨declared, stubs, rfl, (forall₂_of_mapM hdeclared).imp fun _ _ => emits_of_emitFunction,
    (forall₂_of_mapM hstubs).imp fun _ _ => name_of_emitStub⟩

theorem map_functionName_kept (program : Code) (called : List String) :
    (kept program called).map functionName =
      (chosenFunctions (functions program)).names.filter fun n => !isSkipped called n := by
  rw [kept, List.map_map, Table.names, List.filter_map]
  apply List.map_congr_left
  intro e he
  exact (mem_of_mem_chosenFunctions (List.mem_filter.1 he).1).2.symm

theorem Lists.map_name {program : Code} {called : List String} {m : Module}
    (h : Lists program called m) :
    m.functions.map Function.name = ((chosenFunctions (functions program)).names.filter fun n =>
      !isSkipped called n) ++ missing program called := by
  obtain ⟨declared, stubs, hfunctions, hdeclared, hstubs⟩ := h
  have hnames := map_eq_map_of_forall₂ (hdeclared.imp fun _ _ h => h.1)
  have hmissing := map_eq_map_of_forall₂ (f := id) hstubs
  rw [hfunctions, List.map_append, hnames, map_functionName_kept, hmissing, List.map_id]

theorem get?_of_mem_kept {program f : Code} {called : List String} (h : f ∈ kept program called) :
    (chosenFunctions (functions program)).get? (functionName f) = some f := by
  obtain ⟨e, he, rfl⟩ := List.mem_map.1 h
  have hchosen := (List.mem_filter.1 he).1
  have hnodup : (chosenFunctions (functions program)).names.Nodup := by
    rw [names_chosenFunctions]
    exact nodup_eraseDups _
  refine Table.get?_of_mem hnodup ?_
  rw [← (mem_of_mem_chosenFunctions hchosen).2]
  exact hchosen

theorem Lists.exists_emits {program : Code} {called : List String} {m : Module} {g : Function}
    (h : Lists program called m) (hcalled : ∀ n ∈ called, Library.reserved n)
    (hg : g ∈ m.functions) (hname : ¬Library.reserved g.name) :
    ∃ f, (chosenFunctions (functions program)).get? g.name = some f ∧ Emits f g := by
  obtain ⟨declared, stubs, hfunctions, hdeclared, hstubs⟩ := h
  rw [hfunctions, List.mem_append] at hg
  obtain hg | hg := hg
  · obtain ⟨f, hf, hemits⟩ := exists_of_mem_forall₂ hdeclared hg
    exact ⟨f, hemits.name ▸ get?_of_mem_kept hf, hemits⟩
  · obtain ⟨n, hn, rfl⟩ := exists_of_mem_forall₂ hstubs hg
    exact absurd (hcalled _ (List.mem_filter.1 hn).1) hname

end Script

end StructLang
