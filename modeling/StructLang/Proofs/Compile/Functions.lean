import Mathlib.Data.List.Permutation
import StructLang.Proofs.Compile.Lines
import StructLang.Proofs.Typing.Numeric

namespace StructLang

open Script

namespace Tree

variable {N : String → Prop} {t : Tree} {st : Typing.State} {c c' : Code}

def declared (t : Tree) : List String := t.declarations.map Prod.fst

theorem IsProgram.chosenFunctions_related (h : t.IsProgram N)
    (hcheck : ({} : Typing.State).check t = (st, .ok ())) (hlower : t.lower = .ok c)
    (hfolds : c.Folds c') :
    List.Forall₂ (Table.Related Declaration.Agrees)
      (t.declarations.foldl (Table.keep Declaration.better) [])
      (chosenFunctions (functions c')) := by
  have hbody : ∀ s ∈ t.statements, s.HasStatements :=
    fun s hs => (Typing.State.passes_of_check h hcheck s hs).hasStatements
  rw [chosenFunctions_eq_foldl_keep]
  refine Table.foldl_keep_related ?_ (h.declarations_related hbody hlower hfolds) .nil
  intro d f d' f' hd hd'
  rw [Declaration.better, better, hd.body, hd'.body]

theorem IsProgram.names_chosenFunctions (h : t.IsProgram N)
    (hcheck : ({} : Typing.State).check t = (st, .ok ())) (hlower : t.lower = .ok c)
    (hfolds : c.Folds c') :
    (chosenFunctions (functions c')).names = t.declared.eraseDups := by
  rw [← Table.names_eq_of_related (h.chosenFunctions_related hcheck hlower hfolds),
    Table.names_foldl_keep]
  rfl

/-- The names of the functions of the module: those declared, but for library functions that are
not called, then the library functions that are called and not declared. -/
def functionNames (t : Tree) : List String :=
  (t.declared.eraseDups.filter fun n => !Library.reserved n || t.callees.contains n) ++
    t.libraryCalls.eraseDups.filter fun n => !t.declared.contains n

theorem nodup_functionNames (t : Tree) : t.functionNames.Nodup := by
  refine List.nodup_append.2 ⟨(nodup_eraseDups _).filter _, (nodup_eraseDups _).filter _, ?_⟩
  rintro n hn _ hn' rfl
  have hdeclared : n ∈ t.declared := List.mem_eraseDups.1 (List.mem_filter.1 hn).1
  simpa [hdeclared] using (List.mem_filter.1 hn').2

theorem mem_functionNames {t : Tree} {n : String} :
    n ∈ t.functionNames ↔ if Library.reserved n then n ∈ t.callees else n ∈ t.declared := by
  rw [functionNames, List.mem_append, List.mem_filter, List.mem_filter, List.mem_eraseDups,
    List.mem_eraseDups, libraryCalls, List.mem_filter]
  by_cases hreserved : Library.reserved n <;> by_cases hdeclared : n ∈ t.declared <;>
    simp [hreserved, hdeclared]

theorem IsProgram.map_name_functions (h : t.IsProgram N)
    (hcheck : ({} : Typing.State).check t = (st, .ok ())) (hlower : t.lower = .ok c)
    (hfolds : c.Folds c') {m : Module} (hlists : Lists c' c'.calledBuiltins m) :
    m.functions.map Function.name = t.functionNames := by
  have hnames := h.names_chosenFunctions hcheck hlower hfolds
  have hcalls : c'.calledBuiltins = t.libraryCalls.eraseDups := by
    rw [Code.calledBuiltins, hfolds.builtinCalls_eq, h.builtinCalls_of_lower hlower]
  rw [hlists.map_name, missing, hnames, functionNames, hcalls]
  congr 1
  · apply List.filter_congr
    intro n _
    by_cases hreserved : Library.reserved n <;>
      simp [isSkipped, libraryCalls, hreserved]
  · apply List.filter_congr
    intro n _
    rw [Table.has, hnames]
    simp

theorem References.isName_of_mem_functionNames (h : t.References (Token.IsName ·.toList))
    {n : String} (hn : n ∈ t.functionNames) : Token.IsName n.toList := by
  rw [mem_functionNames] at hn
  split at hn
  · rename_i hreserved
    have hall : ∀ n ∈ Library.functions.names, n ∈ Library.keywords := by decide
    have hmem : n ∈ Library.functions.names := by
      simpa [Library.reserved, Table.has] using hreserved
    exact Token.isName_of_mem_keywords (hall n hmem)
  · obtain ⟨⟨_, d⟩, hd, rfl⟩ := List.mem_map.1 hn
    obtain ⟨s, hs, hsd⟩ := List.mem_filterMap.1 hd
    have hchild : s ∈ t.children := by
      cases t with
      | program => exact hs
      | _ => cases hs
    have hname := (references_iff.1 ((references_iff.1 h).2 s hchild)).1
    cases s with
    | declare | define =>
      cases hsd
      exact hname _ rfl
    | _ => cases hsd

end Tree

/-- The module of a program that compiles has no function twice, every declared function that is not
of the library, a library function exactly if it is called somewhere in the program, and no other:
first those declared, then those called. The lines of the output are those of the module, and these
functions are the ones that its lines open, if the name of the binding does not break a line. -/
theorem compile_functions {job : Job} {o : Outcome} (h : compile job = .ok o)
    (hsuccess : o.failure = none) :
    ∃ t c m, job.Checks t ∧ job.Folds c ∧ ofCode job.options c c.calledBuiltins = .ok m ∧
      o.output = some m.text ∧
      (Text.IsLine job.options.binding →
        Text.lines m.text = m.rows ++ [""] ∧ openedNames m.text = t.functionNames) ∧
      m.functions.map Function.name = t.functionNames ∧
      (m.functions.map Function.name).Nodup ∧
      ∀ n, n ∈ m.functions.map Function.name ↔
        if Library.reserved n then
          ∃ args place place', .call (.name n place') args place ∈ t.preorder
        else n ∈ t.declared := by
  obtain ⟨c, m, hfolds, hm, houtput⟩ := (ready_of_compile h hsuccess).holds
  obtain ⟨c₀, ⟨t, hchecks, hlower⟩, hfold⟩ := hfolds
  have hnames := hchecks.1.isProgram.map_name_functions (Prod.ext rfl hchecks.2) hlower
    (Code.folds_of_fold hfold) (lists_of_ofCode hm)
  refine ⟨t, c, m, hchecks, ⟨c₀, ⟨t, hchecks, hlower⟩, hfold⟩, hm, houtput, fun hbinding => ?_,
    hnames, ?_, ?_⟩
  · have htidy := hchecks.1.isTidy hlower (Code.folds_of_fold hfold) hm hbinding fun f hf => by
      obtain ⟨ts, hscan, hparse⟩ := hchecks.1
      refine (Tree.references_of_scan hscan hparse).isName_of_mem_functionNames ?_
      rw [← hnames]
      exact List.mem_map_of_mem hf
    rw [htidy.openedNames_text]
    exact ⟨Text.lines_eq m.toList_text htidy.isLine, hnames⟩
  · rw [hnames]
    exact t.nodup_functionNames
  · intro n
    rw [hnames, Tree.mem_functionNames, Tree.mem_callees]

namespace Sample

def source : String :=
  "f(): number; f(x: number): number \x7b return x; \x7d abs(x: number): number; print(f(2));"

def tokens : List Token :=
  [⟨.identifier, "f", 1, 1⟩, ⟨.symbol, "(", 1, 2⟩, ⟨.symbol, ")", 1, 3⟩,
    ⟨.returnType, "number", 1, 6⟩, ⟨.symbol, ";", 1, 12⟩, ⟨.identifier, "f", 1, 14⟩,
    ⟨.symbol, "(", 1, 15⟩, ⟨.identifier, "x", 1, 16⟩, ⟨.symbol, ":", 1, 17⟩,
    ⟨.type, "number", 1, 19⟩, ⟨.symbol, ")", 1, 25⟩, ⟨.returnType, "number", 1, 28⟩,
    ⟨.symbol, "\x7b", 1, 35⟩, ⟨.keyword, "return", 1, 37⟩, ⟨.identifier, "x", 1, 44⟩,
    ⟨.symbol, ";", 1, 45⟩, ⟨.symbol, "\x7d", 1, 47⟩, ⟨.keyword, "abs", 1, 49⟩,
    ⟨.symbol, "(", 1, 52⟩, ⟨.identifier, "x", 1, 53⟩, ⟨.symbol, ":", 1, 54⟩,
    ⟨.type, "number", 1, 56⟩, ⟨.symbol, ")", 1, 62⟩, ⟨.returnType, "number", 1, 65⟩,
    ⟨.symbol, ";", 1, 71⟩, ⟨.keyword, "print", 1, 73⟩, ⟨.symbol, "(", 1, 78⟩,
    ⟨.identifier, "f", 1, 79⟩, ⟨.symbol, "(", 1, 80⟩, ⟨.number, "2", 1, 81⟩, ⟨.symbol, ")", 1, 82⟩,
    ⟨.symbol, ")", 1, 83⟩, ⟨.symbol, ";", 1, 84⟩, ⟨.eof, "", 1, 85⟩]

open MainFile (place)

def tree : Tree := .program
  [.declare "f" [] .number (place 1 1),
    .define "f" [.param "x" .number (place 16 1)] .number
      [.ret (.name "x" (place 44 1)) (place 37 6)] (place 14 1),
    .declare "abs" [.param "x" .number (place 53 1)] .number (place 49 3),
    .expr (.call (.name "print" (place 73 5))
      [.call (.name "f" (place 79 1)) [.number "2" (place 81 1)] (place 79 1)]
      (place 73 5)) none (place 73 5)]
  "main.struct" (place 1 1)

def job : Job := { source }

def types : Typing.State where
  signatures := [("f", ⟨[.number], .number, false⟩), ("abs", ⟨[.number], .number, false⟩)]
  declarations := [("f", ⟨[.param "x" .number (place 16 1)], .number, true⟩),
    ("abs", ⟨[.param "x" .number (place 53 1)], .number, false⟩)]

theorem parse_tokens : Tree.parse "main.struct" tokens = .ok tree := by cbv

theorem computed : (Token.scan job.file job.source).toOption = some tokens ∧
    ((tree.lower.toOption.bind fun c => (c.fold {}).1.toOption).bind fun c' =>
      (ofCode {} c' c'.calledBuiltins).toOption).isSome := by decide +kernel

theorem parses_tree : job.Parses tree := ⟨tokens, toOption_eq_some.1 computed.1, parse_tokens⟩

open Typing in
theorem check_tree : ({} : State).check tree = (types, .ok ()) := by
  let sc := types.scope
  have hparam (column : Nat) : AreNumbers sc [.param "x" .number (place column 1)] :=
    List.forall_mem_singleton.2 ⟨_, _, _, rfl, sc.isNumber_number⟩
  have hcall : visit sc (.call (.name "f" (place 79 1)) [.number "2" (place 81 1)] (place 79 1)) =
      .ok (some .number) :=
    visit_call_number rfl (List.forall_mem_singleton.2 sc.takesNumber_number)
      (sc.isNumber_number.resolve _) (.inr rfl) (by decide)
      (List.forall_mem_singleton.2 (visit_number _ _ _))
  refine State.check_eq rfl (by simp [types]) ?_ _ _
  simp only [List.forall_mem_cons, List.not_mem_nil, false_imp_iff, implies_true, and_true]
  refine ⟨?_, ?_, ?_, passes_print hcall⟩
  · exact passes_declare_number (by simp [AreNumbers]) sc.isNumber_number (by rintro s ⟨⟩)
  · exact passes_define_number rfl (hparam 16) sc.isNumber_number rfl rfl
      (by simp [firstReturn, typed, visit])
  · exact passes_declare_number (hparam 53) sc.isNumber_number (by rintro s ⟨⟩; rfl)

theorem exists_module : ∃ c c' m, tree.lower = .ok c ∧ (c.fold {}).1 = .ok c' ∧
    ofCode {} c' c'.calledBuiltins = .ok m := by
  obtain ⟨m, hm⟩ := Option.isSome_iff_exists.1 computed.2
  obtain ⟨c', hfold, hm⟩ := Option.bind_eq_some_iff.1 hm
  obtain ⟨c, hlower, hfold⟩ := Option.bind_eq_some_iff.1 hfold
  exact ⟨c, c', m, toOption_eq_some.1 hlower, toOption_eq_some.1 hfold, toOption_eq_some.1 hm⟩

end Sample

theorem compile_functions_sample : ∃ o, ∃ m : Module, compile Sample.job = .ok o ∧
    o.failure = none ∧ o.output = some m.text ∧ openedNames m.text = ["f", "print"] ∧
    m.functions.map Function.name = ["f", "print"] := by
  obtain ⟨c, c', m, hlower, hfold, hm⟩ := Sample.exists_module
  have hchecks : Sample.job.Checks Sample.tree :=
    ⟨Sample.parses_tree, congrArg Prod.snd Sample.check_tree⟩
  obtain ⟨o, ho, hsuccess, _⟩ := hchecks.compiles hlower hfold hm
  obtain ⟨t, _, m', ht, _, _, houtput, htext, hnames, _⟩ := compile_functions ho hsuccess
  cases hchecks.1.unique ht.1
  have hsample : Sample.tree.functionNames = ["f", "print"] := by decide +kernel
  rw [hsample] at htext hnames
  exact ⟨o, m', ho, hsuccess, houtput, (htext (by decide)).2, hnames⟩

namespace Tree

variable {N : String → Prop} {t : Tree} {st : Typing.State} {c c' : Code}

theorem IsProgram.chosenFunctions_signed (h : t.IsProgram N)
    (hcheck : ({} : Typing.State).check t = (st, .ok ())) (hlower : t.lower = .ok c)
    (hfolds : c.Folds c') {n : String} {s : Signature} (hs : st.signatures.get? n = some s) :
    ∃ f, (chosenFunctions (functions c')).get? n = some f ∧
      (functionParams f).map Code.paramType? = s.params.map some ∧
      f.resultType? = some s.result ∧ s.variadic = false := by
  -- both tables are related to that of the declarations that count
  have hchosen := h.chosenFunctions_related hcheck hlower hfolds
  obtain ⟨_, hnone⟩ | ⟨d, s', hd, hs', hsigns⟩ :=
    Table.get?_related (Typing.State.signatures_related hcheck) n
  · cases hs.symm.trans hnone
  · cases hs.symm.trans hs'
    obtain ⟨hnone, _⟩ | ⟨d', f, hd', hf, hagrees⟩ := Table.get?_related hchosen n
    · cases hd.symm.trans hnone
    · cases hd.symm.trans hd'
      refine ⟨f, hf, hagrees.params.trans hsigns.params, ?_, hsigns.variadic⟩
      rw [hagrees.result, hsigns.result]

theorem IsProgram.arity_of_mem_functions (h : t.IsProgram N)
    (hcheck : ({} : Typing.State).check t = (st, .ok ())) (hlower : t.lower = .ok c)
    (hfolds : c.Folds c') {m : Module} (hlists : Lists c' c'.calledBuiltins m) {n : String}
    {args : List Tree} {place place' : Option Span}
    (hcall : .call (.name n place') args place ∈ t.checkedNodes) (hn : ¬Library.reserved n) :
    (∃ g ∈ m.functions, g.name = n) ∧
      ∀ g ∈ m.functions, g.name = n → g.params.length = args.length ∧ g.rest = none := by
  have hcalled := h.reserved_of_mem_calledBuiltins hlower hfolds.builtinCalls_eq
  obtain ⟨s, hs, hlength⟩ := Typing.State.arity_of_mem_checkedNodes h hcheck hcall hn
  obtain ⟨f, hf, hparams, _⟩ := h.chosenFunctions_signed hcheck hlower hfolds hs
  constructor
  · have hmem : n ∈ m.functions.map Function.name := by
      rw [h.map_name_functions hcheck hlower hfolds hlists, mem_functionNames, if_neg hn,
        ← List.mem_eraseDups, ← h.names_chosenFunctions hcheck hlower hfolds]
      exact List.mem_map.2 ⟨_, Table.mem_of_get? hf, rfl⟩
    exact List.mem_map.1 hmem
  · rintro g hg rfl
    obtain ⟨f', hf', hemits⟩ := hlists.exists_emits hcalled hg hn
    cases hf.symm.trans hf'
    have hcount : (functionParams f).length = s.params.length := by
      simpa using congrArg List.length hparams
    rw [hemits.params, hcount, hlength]
    exact ⟨rfl, hemits.rest (hemits.name ▸ hn)⟩

end Tree

/-- The checker and the emitter choose the same declaration of each name and list the names in the
same order, so a call that is checked passes as many arguments as the emitted function takes. -/
theorem signatures_eq_chosen {file : String} {ts : List Token} {t : Tree} {st : Typing.State}
    {c c' : Code} {tally : Code.Tally} (hparse : Tree.parse file ts = .ok t)
    (hcheck : ({} : Typing.State).check t = (st, .ok ())) (hlower : t.lower = .ok c)
    (hfold : (c.fold tally).1 = .ok c') :
    (chosenFunctions (functions c')).names = st.signatures.names ∧
      (∀ n ∈ t.declared, ∃ f s, (chosenFunctions (functions c')).get? n = some f ∧
        st.signatures.get? n = some s ∧
        (functionParams f).map Code.paramType? = s.params.map some ∧
        f.resultType? = some s.result ∧ s.variadic = false) ∧
      ∀ o m, ofCode o c' c'.calledBuiltins = .ok m → ∀ n args place place',
        .call (.name n place') args place ∈ t.checkedNodes → ¬Library.reserved n →
        (∃ g ∈ m.functions, g.name = n) ∧
          ∀ g ∈ m.functions, g.name = n → g.params.length = args.length ∧ g.rest = none := by
  have ht : t.IsProgram fun _ => True := Tree.isProgram_of_parse hparse fun _ _ _ => trivial
  have hfolds := Code.folds_of_fold hfold
  have hnames : (chosenFunctions (functions c')).names = st.signatures.names :=
    (Table.names_eq_of_related (ht.chosenFunctions_related hcheck hlower hfolds)).symm.trans
      (Table.names_eq_of_related (Typing.State.signatures_related hcheck))
  refine ⟨hnames, fun n hn => ?_, fun o m hm n args place place' hcall hn => ?_⟩
  · have hmem : n ∈ st.signatures.names := by
      rw [← hnames, ht.names_chosenFunctions hcheck hlower hfolds, List.mem_eraseDups]
      exact hn
    obtain ⟨s, hs⟩ := Option.ne_none_iff_exists'.1 (mt Table.get?_eq_none_iff.1 (not_not.2 hmem))
    obtain ⟨f, hf, hsigned⟩ := ht.chosenFunctions_signed hcheck hlower hfolds hs
    exact ⟨f, s, hf, hs, hsigned⟩
  · exact ht.arity_of_mem_functions hcheck hlower hfolds (lists_of_ofCode hm) hcall hn

theorem signatures_eq_chosen_sample : ∃ c c' m, Sample.tree.lower = .ok c ∧
    (c.fold {}).1 = .ok c' ∧ ofCode {} c' c'.calledBuiltins = .ok m ∧
    (chosenFunctions (functions c')).names = ["f", "abs"] ∧
    ∀ g ∈ m.functions, g.name = "f" → g.params.length = 1 ∧ g.rest = none := by
  obtain ⟨c, c', m, hlower, hfold, hm⟩ := Sample.exists_module
  obtain ⟨hnames, _, hcalls⟩ :=
    signatures_eq_chosen Sample.parse_tokens Sample.check_tree hlower hfold
  have hcall : .call (.name "f" (MainFile.place 79 1)) [.number "2" (MainFile.place 81 1)]
      (MainFile.place 79 1) ∈ Sample.tree.checkedNodes := by
    simp [Sample.tree, Tree.checkedNodes, Tree.statements, Tree.checked?, Tree.preorder,
      Tree.preorderAll]
  exact ⟨c, c', m, hlower, hfold, hm, hnames,
    (hcalls {} m hm "f" _ _ _ hcall (by decide)).2⟩

end StructLang
