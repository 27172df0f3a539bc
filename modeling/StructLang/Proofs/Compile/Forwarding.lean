import StructLang.Proofs.Compile.Functions
import StructLang.Proofs.Script.Forwarding

namespace StructLang

open Script

namespace Typing

variable {sc : Scope}

theorem length_of_visitAll {ts : List Tree} {rs : List (Option Ty)}
    (h : visitAll sc ts = .ok rs) : rs.length = ts.length := by
  induction ts generalizing sc rs with
  | nil =>
    cases h
    rfl
  | cons t ts ih =>
    obtain ⟨r, _, h⟩ := bind_eq_ok.1 h
    obtain ⟨rs, hrs, h⟩ := bind_eq_ok.1 h
    cases h
    rw [List.length_cons, List.length_cons, ih hrs]

theorem length_of_checkForward {n : String} {types : List (Option Ty)} {result : Ty}
    {place : Option Span} (h : checkForward sc n types result place = .ok ()) {s : Signature}
    (hs : Library.find? n = some s) (hvariadic : s.variadic = false) : types.length = s.arity := by
  rw [checkForward, hs] at h
  obtain ⟨same, _, h⟩ := bind_eq_ok.1 h
  cases same with
  | false => cases h
  | true =>
    rw [if_pos rfl, if_neg (by simp [hvariadic])] at h
    split at h
    · assumption
    · cases h

theorem Passes.forward {t : Tree} {n : String} {d : Declaration} (h : Passes sc t)
    (hd : t.declaration? = some (n, d)) {s : Signature} (hs : Library.find? n = some s) :
    d.bodied = false ∧ (s.variadic = false → d.params.length = s.arity) := by
  obtain ⟨r, h⟩ := h
  cases t with
  | declare =>
    cases hd
    rw [visit] at h
    obtain ⟨types, htypes, h⟩ := bind_eq_ok.1 h
    obtain ⟨_, _, h⟩ := bind_eq_ok.1 h
    obtain ⟨_, hforward, _⟩ := bind_eq_ok.1 h
    refine ⟨rfl, fun hvariadic => ?_⟩
    rw [← length_of_checkForward hforward hs hvariadic, length_of_visitAll htypes]
  | define =>
    cases hd
    rw [visit] at h
    obtain ⟨_, _, h⟩ := bind_eq_ok.1 h
    obtain ⟨_, _, h⟩ := bind_eq_ok.1 h
    rw [if_pos (Library.reserved_of_find? hs)] at h
    cases h
  | _ => cases hd

end Typing

def Declaration.paramNames (d : Declaration) : List String := d.params.filterMap Typing.boundName?

theorem Declaration.Agrees.ownNames_eq {d : Declaration} {f : Code} (h : d.Agrees f) :
    ownNames f = d.paramNames := by
  have hnames := congrArg (List.filterMap id) h.names
  rwa [List.filterMap_map, List.filterMap_map, Function.id_comp, Function.id_comp] at hnames

namespace Tree

variable {N : String → Prop} {t : Tree} {st : Typing.State} {c c' : Code}

def chosen (t : Tree) : Table Declaration :=
  t.declarations.foldl (Table.keep Declaration.better) []

theorem IsProgram.forward_of_chosen (h : t.IsProgram N)
    (hcheck : ({} : Typing.State).check t = (st, .ok ())) {n : String} {d : Declaration}
    (hd : t.chosen.get? n = some d) {s : Signature} (hs : Library.find? n = some s) :
    d.bodied = false ∧ (s.variadic = false → d.params.length = s.arity) := by
  have hmem : (n, d) ∈ t.declarations := Table.mem_of_mem_foldl_keep (Table.mem_of_get? hd)
  obtain ⟨s', hs', hdecl⟩ := List.mem_filterMap.1 hmem
  exact (Typing.State.passes_of_check h hcheck s' hs').forward hdecl hs

theorem IsProgram.emitted_cases (h : t.IsProgram N)
    (hcheck : ({} : Typing.State).check t = (st, .ok ())) (hlower : t.lower = .ok c)
    (hfolds : c.Folds c') {o : Options} {called : List String} {m : Module}
    (hemitted : Emitted o c' called m) {g : Function} (hg : g ∈ m.functions) :
    (∃ d f, t.chosen.get? g.name = some d ∧ d.Agrees f ∧ g.Declares m.binding f) ∨
      t.chosen.get? g.name = none ∧ g.Stubs m.binding g.name := by
  have hrelated := Table.get?_related (h.chosenFunctions_related hcheck hlower hfolds) g.name
  obtain ⟨f, hf, hdeclares⟩ | ⟨n, hn, hstubs⟩ := hemitted.cases hg
  · have hget : (chosenFunctions (functions c')).get? g.name = some f :=
      hdeclares.name ▸ get?_of_mem_kept hf
    obtain ⟨_, hnone⟩ | ⟨d, f', hd, hf', hagrees⟩ := hrelated
    · cases hget.symm.trans hnone
    · cases hget.symm.trans hf'
      exact .inl ⟨d, f, hd, hagrees, hdeclares⟩
  · have hmissing : (chosenFunctions (functions c')).get? g.name = none := by
      rw [Table.get?_eq_none_iff, hstubs.name]
      simpa [Table.has] using (List.mem_filter.1 hn).2
    obtain ⟨hnone, _⟩ | ⟨_, _, _, hsome, _⟩ := hrelated
    · exact .inr ⟨hnone, hstubs.name ▸ hstubs⟩
    · cases hmissing.symm.trans hsome

end Tree

def Script.Function.SuitsLibrary (g : Function) : Prop :=
  match Library.find? g.name with
  | none => g.rest = none
  | some s => if s.variadic then g.rest.isSome else g.rest = none ∧ g.params.length = s.arity

theorem Script.Function.Stubs.suitsLibrary {binding : String} {g : Function}
    (h : g.Stubs binding g.name) : g.SuitsLibrary := by
  obtain ⟨s, hs, hparams, hrest⟩ := h.signature
  rw [SuitsLibrary, hs, hparams, hrest]
  cases hvariadic : s.variadic <;> simp [argNames, hvariadic]

theorem Script.Function.Declares.hasBody_eq_false {binding b : String} {f : Code} {g : Function}
    (h : g.Declares binding f) (hb : g.body = .forward b) : hasBody f = false := by
  by_contra hbody
  obtain ⟨lines, hlines⟩ : ∃ ls, g.body = .lines ls := by simpa [hbody] using h.body
  cases hb.symm.trans hlines

theorem Script.Function.Declares.suitsLibrary {binding : String} {f : Code} {g : Function}
    (h : g.Declares binding f) (hbody : hasBody f = false)
    (hlength : ∀ s, Library.find? g.name = some s → s.variadic = false →
      (functionParams f).length = s.arity) : g.SuitsLibrary := by
  have hrest := h.rest
  rw [restName?, hbody, ← h.name] at hrest
  rw [SuitsLibrary]
  cases hs : Library.find? g.name with
  | none => simpa [hs] using hrest
  | some s =>
    rw [hs] at hrest
    cases hvariadic : s.variadic with
    | true => simp [hrest, hvariadic]
    | false => simpa [hvariadic, h.length, hlength s hs hvariadic] using hrest

/-- What a compiled program forwards: every function with a reserved name, and every declared one
without a body. The parameters are as many as the library function has, and the arguments arrive in
order exactly if the declaration that counts has no name twice among its parameters. -/
theorem compile_forwards {job : Job} {o : Outcome} (h : compile job = .ok o)
    (hsuccess : o.failure = none) :
    ∃ t c m, job.Checks t ∧ job.Folds c ∧ ofCode job.options c c.calledBuiltins = .ok m ∧
      o.output = some m.text ∧
      ∀ g ∈ m.functions, (Library.reserved g.name → g.body = .forward m.binding) ∧
        ∀ b, g.body = .forward b →
          g.bodyLines = ["return " ++ m.binding ++ "." ++ g.name ++ "(" ++ g.paramText ++ ");"] ∧
          g.SuitsLibrary ∧ (g.ForwardsInOrder ↔ (g.params ++ g.rest.toList).Nodup) ∧
          (g.ForwardsInOrder ↔ ∀ d, t.chosen.get? g.name = some d → d.paramNames.Nodup) := by
  obtain ⟨c, m, hfolds, hm, houtput⟩ := (ready_of_compile h hsuccess).holds
  obtain ⟨c₀, ⟨t, hchecks, hlower⟩, hfold⟩ := hfolds
  refine ⟨t, c, m, hchecks, ⟨c₀, ⟨t, hchecks, hlower⟩, hfold⟩, hm, houtput, fun g hg => ?_⟩
  have ht := hchecks.1.isProgram
  have hcheck : ({} : Typing.State).check t = ((({} : Typing.State).check t).1, .ok ()) :=
    Prod.ext rfl hchecks.2
  obtain ⟨d, f, hd, hagrees, hdeclares⟩ | ⟨hnone, hstubs⟩ :=
    ht.emitted_cases hcheck hlower (Code.folds_of_fold hfold) (emitted_of_ofCode hm) hg
  · have hlength : (functionParams f).length = d.params.length := by
      simpa using congrArg List.length hagrees.names
    refine ⟨fun hreserved => ?_, fun b hb => ?_⟩
    · obtain ⟨s, hs⟩ := Library.exists_of_reserved hreserved
      have hbody : hasBody f = false := hagrees.body.trans (ht.forward_of_chosen hcheck hd hs).1
      simpa [hbody] using hdeclares.body
    · have hbody : hasBody f = false := hdeclares.hasBody_eq_false hb
      have hforward : g.body = .forward m.binding := by simpa [hbody] using hdeclares.body
      refine ⟨by rw [Function.bodyLines, hforward], hdeclares.suitsLibrary hbody ?_,
        Function.forwardsInOrder_iff_nodup, ?_⟩
      · intro s hs hvariadic
        rw [hlength, (ht.forward_of_chosen hcheck hd hs).2 hvariadic]
      · rw [hdeclares.forwardsInOrder_iff, hagrees.ownNames_eq, hd]
        simp
  · refine ⟨fun _ => hstubs.body, fun b hb => ⟨by rw [Function.bodyLines, hstubs.body],
      hstubs.suitsLibrary, Function.forwardsInOrder_iff_nodup, ?_⟩⟩
    rw [hnone]
    refine iff_of_true hstubs.forwardsInOrder fun d hd => ?_
    cases hd

namespace Doubled

def source : String := "min(a: number, a: number): number; print(min(1, 2));"

def tokens : List Token :=
  [⟨.keyword, "min", 1, 1⟩, ⟨.symbol, "(", 1, 4⟩, ⟨.identifier, "a", 1, 5⟩, ⟨.symbol, ":", 1, 6⟩,
    ⟨.type, "number", 1, 8⟩, ⟨.symbol, ",", 1, 14⟩, ⟨.identifier, "a", 1, 16⟩,
    ⟨.symbol, ":", 1, 17⟩, ⟨.type, "number", 1, 19⟩, ⟨.symbol, ")", 1, 25⟩,
    ⟨.returnType, "number", 1, 28⟩,
    ⟨.symbol, ";", 1, 34⟩, ⟨.keyword, "print", 1, 36⟩, ⟨.symbol, "(", 1, 41⟩,
    ⟨.keyword, "min", 1, 42⟩, ⟨.symbol, "(", 1, 45⟩, ⟨.number, "1", 1, 46⟩, ⟨.symbol, ",", 1, 47⟩,
    ⟨.number, "2", 1, 49⟩, ⟨.symbol, ")", 1, 50⟩, ⟨.symbol, ")", 1, 51⟩, ⟨.symbol, ";", 1, 52⟩,
    ⟨.eof, "", 1, 53⟩]

open MainFile (place)

def tree : Tree := .program
  [.declare "min" [.param "a" .number (place 5 1), .param "a" .number (place 16 1)] .number
      (place 1 3),
    .expr (.call (.name "print" (place 36 5))
      [.call (.name "min" (place 42 3)) [.number "1" (place 46 1), .number "2" (place 49 1)]
        (place 42 3)] (place 36 5)) none (place 36 5)]
  "main.struct" (place 1 3)

def job : Job := { source }

def types : Typing.State where
  signatures := [("min", ⟨[.number, .number], .number, false⟩)]
  declarations := [("min", ⟨[.param "a" .number (place 5 1), .param "a" .number (place 16 1)],
    .number, false⟩)]

def functions : List Function :=
  [⟨"min", ["a", "a"], none, .forward "stdlib"⟩, ⟨"print", [], some "args", .forward "stdlib"⟩]

theorem computed : (Token.scan job.file job.source).toOption = some tokens ∧
    ((tree.lower.toOption.bind fun c => (c.fold {}).1.toOption).bind fun c' =>
      (ofCode {} c' c'.calledBuiltins).toOption).map (fun m => (m.binding, m.functions)) =
      some ("stdlib", functions) := by decide +kernel

theorem parses_tree : job.Parses tree := ⟨tokens, toOption_eq_some.1 computed.1, by cbv⟩

open Typing in
theorem check_tree : ({} : State).check tree = (types, .ok ()) := by
  let sc := types.scope
  have hparam (column : Nat) :
      ∃ x t loc, Tree.param "a" .number (place column 1) = .param x t loc ∧ sc.IsNumber t :=
    ⟨_, _, _, rfl, sc.isNumber_number⟩
  have hcall : visit sc (.call (.name "min" (place 42 3))
      [.number "1" (place 46 1), .number "2" (place 49 1)] (place 42 3)) = .ok (some .number) :=
    visit_call_number rfl (by simpa using sc.takesNumber_number) (sc.isNumber_number.resolve _)
      (.inr rfl) (by decide) (by simp [visit_number])
  refine State.check_eq rfl (by simp [types])
    (List.forall_mem_cons.2 ⟨?_, List.forall_mem_singleton.2 (passes_print hcall)⟩) _ _
  exact passes_declare_number
    (List.forall_mem_cons.2 ⟨hparam 5, List.forall_mem_singleton.2 (hparam 16)⟩)
    sc.isNumber_number (by rintro s ⟨⟩; rfl)

theorem checks_tree : job.Checks tree := ⟨parses_tree, congrArg Prod.snd check_tree⟩

theorem exists_compiled : ∃ o, ∃ m : Module, compile job = .ok o ∧ o.failure = none ∧
    o.output = some m.text ∧ m.binding = "stdlib" ∧ m.functions = functions := by
  obtain ⟨m, hm, heq⟩ := Option.map_eq_some_iff.1 computed.2
  obtain ⟨c', hfold, hm⟩ := Option.bind_eq_some_iff.1 hm
  obtain ⟨c, hlower, hfold⟩ := Option.bind_eq_some_iff.1 hfold
  obtain ⟨o, ho, hsuccess, houtput⟩ := checks_tree.compiles (toOption_eq_some.1 hlower)
    (toOption_eq_some.1 hfold) (toOption_eq_some.1 hm)
  exact ⟨o, m, ho, hsuccess, houtput, congrArg Prod.fst heq, congrArg Prod.snd heq⟩

end Doubled

theorem compile_forwards_doubled : ∃ o, ∃ m : Module, compile Doubled.job = .ok o ∧
    o.failure = none ∧ o.output = some m.text ∧ ∀ g ∈ m.functions, ∀ b, g.body = .forward b →
      (g.ForwardsInOrder ↔ g.name ≠ "min") := by
  obtain ⟨o, _, ho, hsuccess, _⟩ := Doubled.exists_compiled
  obtain ⟨t, c, m, hchecks, _, _, houtput, hforwards⟩ := compile_forwards ho hsuccess
  cases Doubled.parses_tree.unique hchecks.1
  refine ⟨o, m, ho, hsuccess, houtput, fun g hg b hb => ?_⟩
  rw [((hforwards g hg).2 b hb).2.2.2]
  by_cases hname : g.name = "min"
  · have hmin : Doubled.tree.chosen.get? "min" = some ⟨[.param "a" .number (MainFile.place 5 1),
        .param "a" .number (MainFile.place 16 1)], .number, false⟩ := by rfl
    rw [hname, hmin]
    simp [Declaration.paramNames, Typing.boundName?]
  · have hnames : Doubled.tree.chosen.names = ["min"] := rfl
    have hnone : Doubled.tree.chosen.get? g.name = none := by
      rw [Table.get?_eq_none_iff, hnames]
      simpa using hname
    simp [hnone, hname]

/-- A compiled program in which a reserved name is not forwarded in order. -/
theorem compile_reserved_doubled : ∃ o, ∃ m : Module, ∃ g ∈ m.functions,
    compile Doubled.job = .ok o ∧ o.failure = none ∧ o.output = some m.text ∧
    Library.reserved g.name ∧ g.body = .forward m.binding ∧ ¬g.params.Nodup ∧
    ∃ xs : List Nat, g.Takes xs ∧ g.passed xs ≠ xs.map some := by
  obtain ⟨o, m, ho, hsuccess, houtput, hbinding, hfunctions⟩ := Doubled.exists_compiled
  refine ⟨o, m, ⟨"min", ["a", "a"], none, .forward "stdlib"⟩, ?_, ho, hsuccess, houtput, rfl, ?_,
    by decide, [1, 2], rfl, by decide⟩
  · rw [hfunctions]
    exact List.mem_cons_self
  · rw [hbinding]

end StructLang
