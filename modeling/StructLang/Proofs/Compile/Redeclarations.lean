import StructLang.Proofs.Compile.Functions
import StructLang.Proofs.Typing.Redeclarations
import StructLang.Proofs.Typing.Reserved

namespace StructLang

namespace Code

def redeclares : Code → Bool
  | .declare n _ _ _ _ => Library.reserved n
  | _ => false

def own (cs : List Code) : List Code := cs.filter (!·.redeclares)

theorem filter_own {p : Code → Bool}
    (h : ∀ n params result builtin place, p (.declare n params result builtin place) = false)
    (cs : List Code) : (own cs).filter p = cs.filter p := by
  refine filter_filter_of_imp (fun c hc => ?_) cs
  cases c with
  | declare =>
    rw [h] at hc
    cases hc
  | _ => rfl

theorem calledBuiltins_own (cs : List Code) (file : String) (place : Option Span) :
    (Code.program (own cs) file place).calledBuiltins =
      (Code.program cs file place).calledBuiltins := by
  have hnil : ∀ c ∈ cs, (!c.redeclares) = false → c.builtinCalls = [] := by
    intro c _ hc
    cases c with
    | declare => rfl
    | _ => cases hc
  rw [calledBuiltins, calledBuiltins, builtinCalls, builtinCalls, builtinCallsAll_eq_flatMap,
    builtinCallsAll_eq_flatMap, own, flatMap_filter_of_nil hnil]

theorem Folds.redeclares_eq {c c' : Code} (h : c.Folds c') : c'.redeclares = c.redeclares := by
  cases h <;> rfl

theorem fold_own {cs : List Code} {file : String} {place : Option Span} {c' : Code}
    (h : ((Code.program cs file place).fold {}).1 = .ok c') :
    ∃ cs', c' = .program cs' file place ∧
      ((Code.program (own cs) file place).fold {}).1 = .ok (.program (own cs') file place) := by
  obtain ⟨cs', hcs', rfl⟩ := fold_program_eq_ok_iff.1 h
  refine ⟨cs', rfl, fold_program_eq_ok_iff.2 ⟨own cs', mapM_filter hcs' fun c _ d hd => ?_, rfl⟩⟩
  rw [(folds_of_fold hd).redeclares_eq]

end Code

namespace Tree

variable {N : String → Prop} {t : Tree} {c : Code} {ss : List Tree}

theorem IsTopStatement.redeclares_of_lower (h : t.IsTopStatement N) (hlower : t.lower = .ok c) :
    c.redeclares = t.redeclares := by
  match h with
  | .alias _ =>
    cases hlower
    rfl
  | .declare _ _ =>
    obtain ⟨ps, _, hlower⟩ := bind_eq_ok.1 hlower
    cases hlower
    rfl
  | .define _ _ _ =>
    obtain ⟨ps, _, hlower⟩ := bind_eq_ok.1 hlower
    obtain ⟨ss, _, hlower⟩ := bind_eq_ok.1 hlower
    cases hlower
    rfl
  | .expr _ _ =>
    obtain ⟨e, _, hlower⟩ := bind_eq_ok.1 hlower
    cases hlower
    rfl

theorem lower_own (h : ∀ s ∈ ss, s.IsTopStatement N) {file : String} {place : Option Span}
    (hlower : (Tree.program ss file place).lower = .ok c) :
    ∃ cs, c = .program cs file place ∧
      (Tree.program (own ss) file place).lower = .ok (.program (Code.own cs) file place) := by
  obtain ⟨cs, hcs, hlower⟩ := bind_eq_ok.1 hlower
  cases hlower
  rw [lowerAll_eq_mapM] at hcs
  have hown : (own ss).mapM lower = .ok (Code.own cs) :=
    mapM_filter hcs fun s hs d hd => by rw [(h s hs).redeclares_of_lower hd]
  refine ⟨cs, rfl, ?_⟩
  rw [lower, lowerAll_eq_mapM, hown]
  rfl

theorem callees_own (h : ∀ s ∈ ss, s.IsTopStatement N) (file : String) (place : Option Span) :
    (Tree.program (own ss) file place).callees = (Tree.program ss file place).callees := by
  have hnil : ∀ s ∈ ss, s.redeclares → s.callees = [] := by
    intro s hs hredeclares
    obtain ⟨n, params, result, place, _, rfl, _⟩ := exists_of_redeclares hredeclares
    match h _ hs with
    | .declare hparams _ =>
      rw [callees_eq_append]
      refine List.append_eq_nil_iff.2 ⟨rfl, List.flatMap_eq_nil_iff.2 fun p hp => ?_⟩
      cases hparams p hp
      rfl
  rw [callees_eq_append, callees_eq_append]
  exact flatMap_filter_of_nil fun s hs hredeclares => hnil s hs (by simpa using hredeclares)

end Tree

namespace Script

open Code

variable {cs : List Code} {file : String} {place : Option Span} {called : List String}

theorem exists_takenNames_filter {fs : List Code} {ns : List String} (h : takenNames fs = .ok ns)
    (p : Code → Bool) : ∃ ns', takenNames (fs.filter p) = .ok ns' := by
  induction fs generalizing ns with
  | nil => exact ⟨[], rfl⟩
  | cons f fs ih =>
    obtain ⟨ps, hps, h⟩ := bind_eq_ok.1 h
    obtain ⟨ns, hns, h⟩ := bind_eq_ok.1 h
    obtain ⟨ns', hns'⟩ := ih hns
    rw [List.filter_cons]
    split
    · exact ⟨functionName f :: ps ++ ns', by rw [takenNames, hps, hns']; rfl⟩
    · exact ⟨ns', hns'⟩

theorem exists_emitFunction {binding : String} {f : Code} {g : Function}
    (h : emitFunction binding f = .ok g) (binding' : String) :
    ∃ g', emitFunction binding' f = .ok g' := by
  cases f with
  | declare name ps result builtin place =>
    obtain ⟨ns, hns, _⟩ := bind_eq_ok.1 h
    exact ⟨_, by rw [emitFunction, hns]; rfl⟩
  | define name ps result body builtin place =>
    obtain ⟨ns, hns, h⟩ := bind_eq_ok.1 h
    rw [emitFunction, hns, ok_bind]
    cases body with
    | nil => exact ⟨_, rfl⟩
    | cons s ss =>
      obtain ⟨lines, hlines, _⟩ := bind_eq_ok.1 h
      rw [hlines]
      exact ⟨_, rfl⟩
  | _ => cases h

theorem functions_own (cs : List Code) :
    functions (.program (own cs) file place) =
      (functions (.program cs file place)).filter (!·.redeclares) :=
  List.filter_comm ..

theorem get?_chosenFunctions_own {n : String} (hn : ¬Library.reserved n) (cs : List Code) :
    (chosenFunctions (functions (.program (own cs) file place))).get? n =
      (chosenFunctions (functions (.program cs file place))).get? n := by
  have hnamed (fs : List Code) : ((fs.map fun f => (functionName f, f)).filter fun e => e.1 = n) =
      (fs.filter fun f => functionName f = n).map fun f => (functionName f, f) := List.filter_map ..
  rw [chosenFunctions_eq_foldl_keep, chosenFunctions_eq_foldl_keep,
    Table.get?_foldl_keep_filter (u := []) _ rfl,
    Table.get?_foldl_keep_filter (u := []) ((functions (.program cs file place)).map _) rfl,
    hnamed, hnamed, functions_own, filter_filter_of_imp]
  intro f hf
  cases f with
  | declare m _ _ _ _ =>
    cases of_decide_eq_true hf
    simpa [redeclares, functionName] using hn
  | _ => rfl

theorem mem_kept_of_own {f : Code} (hf : f ∈ kept (.program (own cs) file place) called)
    (hn : ¬Library.reserved (functionName f)) : f ∈ kept (.program cs file place) called := by
  have hget := get?_of_mem_kept hf
  rw [get?_chosenFunctions_own hn] at hget
  refine List.mem_map.2 ⟨(functionName f, f), List.mem_filter.2 ⟨Table.mem_of_get? hget, ?_⟩, rfl⟩
  simp [isSkipped, hn]

theorem exists_ofCode_own {o : Options} {m : Module}
    (hcalled : ∀ n ∈ called, Library.reserved n)
    (hown : ∀ n ∈ (chosenFunctions (functions (.program (own cs) file place))).names,
      ¬Library.reserved n)
    (h : ofCode o (.program cs file place) called = .ok m) :
    ∃ m', ofCode o (.program (own cs) file place) called = .ok m' ∧
      m'.statements = m.statements := by
  obtain ⟨binding, hbinding, h⟩ := bind_eq_ok.1 h
  obtain ⟨declared, hdeclared, h⟩ := bind_eq_ok.1 h
  obtain ⟨stubs, hstubs, h⟩ := bind_eq_ok.1 h
  obtain ⟨aliases, haliases, h⟩ := bind_eq_ok.1 h
  obtain ⟨statements, hstatements, h⟩ := bind_eq_ok.1 h
  cases h
  -- With fewer names taken the binding may be another one.
  obtain ⟨binding', hbinding'⟩ : ∃ binding',
      bindingName o.binding (.program (own cs) file place) = .ok binding' := by
    obtain ⟨ns, hns, _⟩ := bind_eq_ok.1 hbinding
    obtain ⟨ns', hns'⟩ := exists_takenNames_filter hns (!·.redeclares)
    exact ⟨_, by rw [bindingName, functions_own, hns']; rfl⟩
  obtain ⟨declared', hdeclared'⟩ : ∃ gs,
      (kept (.program (own cs) file place) called).mapM (emitFunction binding') = .ok gs := by
    refine exists_mapM fun f hf => ?_
    have hname := List.mem_map_of_mem (f := Prod.fst) (Table.mem_of_get? (get?_of_mem_kept hf))
    obtain ⟨g, _, hg⟩ := (covers_of_forall₂ (forall₂_of_mapM hdeclared)).1 f
      (mem_kept_of_own hf (hown _ hname))
    exact exists_emitFunction hg binding'
  obtain ⟨stubs', hstubs'⟩ : ∃ gs, (missing (.program (own cs) file place) called).mapM
      (emitStub binding') = .ok gs := by
    refine exists_mapM fun n hn => ?_
    exact (emitStub_settles (E := fun _ => False) (hcalled n (List.mem_filter.1 hn).1)
      binding').yields.exists_ok.imp fun _ => And.left
  have haliases' : scripts ((own cs).filter isAlias) = .ok aliases := by
    rw [filter_own fun _ _ _ _ _ => rfl]
    exact haliases
  have hstatements' : scripts ((own cs).filter isStatement) = .ok statements := by
    rw [filter_own fun _ _ _ _ _ => rfl]
    exact hstatements
  refine ⟨⟨o.wrap, o.runtime, binding', aliases, declared' ++ stubs', statements⟩, ?_, rfl⟩
  rw [ofCode, hbinding', ok_bind]
  change ((kept _ called).mapM (emitFunction binding') >>= fun declared =>
    (missing _ called).mapM (emitStub binding') >>= fun stubs => _) = _
  rw [hdeclared', ok_bind, hstubs', ok_bind]
  simp only [Code.statements, haliases', hstatements', ok_bind, pure_eq_ok]

end Script

open Typing Script

namespace Tree

variable {N : String → Prop} {t : Tree} {o : Options} {m : Module} {ss : List Tree}

/-- The program passes the check and comes through every stage to the module. -/
structure CompilesTo (o : Options) (t : Tree) (m : Module) : Prop where
  check : (({} : State).check t).2 = .ok ()
  emits : ∃ c c', t.lower = .ok c ∧ (c.fold {}).1 = .ok c' ∧
    ofCode o c' c'.calledBuiltins = .ok m

theorem CompilesTo.map_name_functions (h : t.CompilesTo o m) (ht : t.IsProgram N) :
    m.functions.map Function.name = t.functionNames := by
  obtain ⟨c, c', hlower, hfold, hm⟩ := h.emits
  exact ht.map_name_functions (Prod.ext rfl h.check) hlower (Code.folds_of_fold hfold)
    (lists_of_ofCode hm)

theorem mem_declared {n : String} :
    n ∈ t.declared ↔ ∃ s ∈ t.statements, s.functionName? = some n := by
  simp only [declared, declarations, functionName?, List.mem_map, List.mem_filterMap,
    Option.map_eq_some_iff]
  constructor
  · rintro ⟨d, ⟨s, hs, hd⟩, rfl⟩
    exact ⟨s, hs, d, hd, rfl⟩
  · rintro ⟨s, hs, d, hd, rfl⟩
    exact ⟨d, ⟨s, hs, hd⟩, rfl⟩

theorem mem_functionNames_own (h : ∀ s ∈ ss, s.IsTopStatement N) {file : String}
    {place : Option Span} {n : String} :
    n ∈ (Tree.program (own ss) file place).functionNames ↔
      n ∈ (Tree.program ss file place).functionNames := by
  rw [mem_functionNames, mem_functionNames, callees_own h]
  split
  · rfl
  · rename_i hn
    rw [mem_declared, mem_declared]
    refine exists_congr fun s => and_congr_left fun hs => ?_
    exact mem_own.trans (and_iff_left (redeclares_eq_false hn hs))

theorem not_reserved_of_mem_declared_own {file : String} {place : Option Span}
    (h : (({} : State).check (.program (own ss) file place)).2 = .ok ()) {n : String}
    (hn : n ∈ (Tree.program (own ss) file place).declared) : ¬Library.reserved n := by
  intro hreserved
  obtain ⟨s, hs, hname⟩ := mem_declared.1 hn
  obtain ⟨-, -, hpasses⟩ := (State.check_program_iff _ _ _).1 h
  cases s with
  | declare =>
    cases hname
    cases hreserved.symm.trans (mem_own.1 hs).2
  | define =>
    cases hname
    exact not_passes_define hreserved _ _ _ _ (hpasses _ hs)
  | _ => cases hname

theorem CompilesTo.own {file : String} {place : Option Span}
    (h : (Tree.program ss file place).CompilesTo o m) (hss : ∀ s ∈ ss, s.IsTopStatement N) :
    ∃ m', (Tree.program (own ss) file place).CompilesTo o m' ∧ m'.statements = m.statements := by
  have hcheck := ((State.check_iff_own hss file place).1 h.check).1
  have hown : ∀ s ∈ Tree.own ss, s.IsTopStatement N := fun s hs => hss s (mem_own.1 hs).1
  obtain ⟨c, c', hlower, hfold, hm⟩ := h.emits
  obtain ⟨cs, rfl, hlower'⟩ := lower_own hss hlower
  obtain ⟨cs', rfl, hfold'⟩ := Code.fold_own hfold
  have hfolds' := Code.folds_of_fold hfold'
  have hcalled : ∀ n ∈ (Code.program cs' file place).calledBuiltins, Library.reserved n :=
    (IsProgram.program hss).reserved_of_mem_calledBuiltins hlower
      (Code.folds_of_fold hfold).builtinCalls_eq
  have hnames : ∀ n ∈ (chosenFunctions (functions (.program (Code.own cs') file place))).names,
      ¬Library.reserved n := by
    rw [(IsProgram.program hown).names_chosenFunctions (Prod.ext rfl hcheck) hlower' hfolds']
    exact fun n hn => not_reserved_of_mem_declared_own hcheck (List.mem_eraseDups.1 hn)
  obtain ⟨m', hm', hstatements⟩ := exists_ofCode_own hcalled hnames hm
  rw [← Code.calledBuiltins_own] at hm'
  exact ⟨m', ⟨hcheck, _, _, hlower', hfold', hm'⟩, hstatements⟩

end Tree

theorem Job.Parses.compiles_iff {job : Job} {t : Tree} (h : job.Parses t) {text : String} :
    (∃ out, compile job = .ok out ∧ out.failure = none ∧ out.output = some text) ↔
      ∃ m, t.CompilesTo job.options m ∧ m.text = text := by
  constructor
  · rintro ⟨out, hout, hsuccess, htext⟩
    obtain ⟨c', m, ⟨c, ⟨t', hchecks, hlower⟩, hfold⟩, hm, houtput⟩ :=
      (ready_of_compile hout hsuccess).holds
    cases h.unique hchecks.1
    exact ⟨m, ⟨hchecks.2, c, c', hlower, hfold, hm⟩, Option.some.inj (houtput.symm.trans htext)⟩
  · rintro ⟨m, ⟨hcheck, c, c', hlower, hfold, hm⟩, rfl⟩
    exact Job.Checks.compiles ⟨h, hcheck⟩ hlower hfold hm

/-- Declarations of library functions change nothing. A program passes the check exactly if it does
without them and each of them says what the library does, every expression has the same type without
them, and if the program compiles, it compiles without them to a module of functions of the same
names and of the same statements. -/
theorem redeclarations_idle {file : String} {ts : List Token} {p : Tree}
    (hparse : Tree.parse file ts = .ok p) :
    ((({} : State).check p).2 = .ok () ↔
      (({} : State).check p.withoutRedeclarations).2 = .ok () ∧
      ∀ n params result place s, .declare n params result place ∈ p.statements →
        Library.find? n = some s →
        Declaration.Conforms (({} : State).check p).1.aliases ⟨params, result, false⟩ s) ∧
    (∀ locals e, (visit { (({} : State).check p).1.scope with locals } e).toOption =
      (visit { (({} : State).check p.withoutRedeclarations).1.scope with locals } e).toOption) ∧
    (∀ o m, p.CompilesTo o m → ∃ m', p.withoutRedeclarations.CompilesTo o m' ∧
      (∀ n, n ∈ m'.functions.map Function.name ↔ n ∈ m.functions.map Function.name) ∧
      m'.statements = m.statements) ∧
    ∀ (job : Job) text, job.Parses p →
      ((∃ out, compile job = .ok out ∧ out.failure = none ∧ out.output = some text) ↔
        ∃ m, p.CompilesTo job.options m ∧ m.text = text) := by
  have hp : p.IsProgram fun _ => True := Tree.isProgram_of_parse hparse fun _ _ _ => trivial
  cases hp with
  | @program ss _ place hss =>
    have hown : ∀ s ∈ Tree.own ss, s.IsTopStatement fun _ => True :=
      fun s hs => hss s (Tree.mem_own.1 hs).1
    refine ⟨?_, fun locals e => ?_, fun o m h => ?_, fun job text hjob => hjob.compiles_iff⟩
    · rw [State.check_fst]
      exact State.check_iff_own hss _ place
    · rw [State.check_fst, State.check_fst]
      exact toOption_visit_congr ((State.agrees_own hss).with_locals locals) e
    · obtain ⟨m', hm', hstatements⟩ := h.own hss
      refine ⟨m', hm', fun n => ?_, hstatements⟩
      rw [hm'.map_name_functions (.program hown), h.map_name_functions (.program hss)]
      exact Tree.mem_functionNames_own hss

theorem redeclarations_idle_sample : ∃ m m' : Module, Sample.tree.CompilesTo {} m ∧
    Sample.tree.withoutRedeclarations.CompilesTo {} m' ∧
    Sample.tree.withoutRedeclarations.statements.length = 3 ∧
    (∀ n, n ∈ m'.functions.map Function.name ↔ n ∈ ["f", "print"]) ∧
    m'.statements = m.statements := by
  obtain ⟨c, c', m, hlower, hfold, hm⟩ := Sample.exists_module
  have hcompiles : Sample.tree.CompilesTo {} m :=
    ⟨congrArg Prod.snd Sample.check_tree, c, c', hlower, hfold, hm⟩
  have hprogram := Tree.isProgram_of_parse (N := fun _ => True) Sample.parse_tokens
    fun _ _ _ => trivial
  have hnames : m.functions.map Function.name = ["f", "print"] :=
    (hcompiles.map_name_functions hprogram).trans (by decide +kernel)
  obtain ⟨_, _, hemits, _⟩ := redeclarations_idle Sample.parse_tokens
  obtain ⟨m', hm', hsame, hstatements⟩ := hemits {} m hcompiles
  rw [hnames] at hsame
  exact ⟨m, m', hcompiles, hm', by decide, hsame, hstatements⟩

end StructLang
