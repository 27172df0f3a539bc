import Mathlib.Data.List.Permutation
import StructLang.Proofs.Script.Functions
import StructLang.Code.Lower
import StructLang.Token.Scan
import StructLang.Tree.Parse

/-!
The binding of the runtime library against the names of the emitted functions and of their
parameters. It is kept apart from the names that the program declares. Emission adds names of its
own after that: stubs and their parameters, and parameters for further arguments.
-/

namespace StructLang.Script

open Code

inductive Padded (name : String) : String → Prop
  | base : Padded name name
  | pad : Padded name n → Padded name (n ++ "_")

theorem Padded.trans {a b c : String} (hab : Padded a b) (hbc : Padded b c) : Padded a c := by
  induction hbc with
  | base => exact hab
  | pad _ ih => exact ih.pad

theorem freeName_notMem (taken : List String) (name : String) : freeName taken name ∉ taken := by
  fun_induction freeName taken name with
  | case1 name _ ih => exact ih
  | case2 name h => exact h

theorem padded_freeName (taken : List String) (name : String) :
    Padded name (freeName taken name) := by
  fun_induction freeName taken name with
  | case1 name _ ih => exact (Padded.base.pad).trans ih
  | case2 name _ => exact .base

def ownNames (f : Code) : List String := (functionParams f).filterMap ownName?

def restName? (f : Code) : Option String :=
  if !hasBody f && (Library.find? (functionName f)).any Signature.variadic then
    some (freeName (ownNames f) "rest")
  else none

def argNames (arity : Nat) : List String := (List.range arity).map fun i => s!"arg{i}"

namespace Function

def names (g : Function) : List String := g.name :: g.params ++ g.rest.toList

structure Declares (binding : String) (f : Code) (g : Function) : Prop where
  name : g.name = functionName f
  params : g.params = ownNames f
  length : g.params.length = (functionParams f).length
  rest : g.rest = restName? f
  body : if hasBody f then ∃ ls, g.body = .lines ls else g.body = .forward binding

structure Stubs (binding n : String) (g : Function) : Prop where
  name : g.name = n
  signature : ∃ s, Library.find? n = some s ∧
    g.params = (if s.variadic then [] else argNames s.arity) ∧
    g.rest = if s.variadic then some "args" else none
  body : g.body = .forward binding

end Function

theorem eq_filterMap_of_paramNames {ps : List Code} {ns : List String}
    (h : paramNames ps = .ok ns) : ns = ps.filterMap ownName? := by
  induction ps generalizing ns with
  | nil =>
    cases h
    rfl
  | cons p ps ih =>
    rw [paramNames] at h
    split at h
    · rename_i n hn
      obtain ⟨ns, hns, h⟩ := bind_eq_ok.1 h
      cases h
      rw [List.filterMap_cons_some hn, ← ih hns]
    · cases h

theorem eq_flatMap_of_takenNames {fs : List Code} {taken : List String}
    (h : takenNames fs = .ok taken) : taken = fs.flatMap fun f => functionName f :: ownNames f := by
  induction fs generalizing taken with
  | nil =>
    cases h
    rfl
  | cons f fs ih =>
    obtain ⟨ps, hps, h⟩ := bind_eq_ok.1 h
    obtain ⟨ns, hns, h⟩ := bind_eq_ok.1 h
    cases h
    rw [List.flatMap_cons, ← ih hns, ownNames, ← eq_filterMap_of_paramNames hps]

theorem declares_forwarder (binding : String) {f : Code} (h : hasBody f = false)
    {params : List String} (hparams : paramNames (functionParams f) = .ok params) :
    (emitFunction.forwarder binding (functionName f) params).Declares binding f := by
  have hlength := length_of_paramNames hparams
  cases eq_filterMap_of_paramNames hparams
  refine ⟨rfl, rfl, hlength, ?_, by simp [h, emitFunction.forwarder]⟩
  simp [emitFunction.forwarder, restName?, h, ownNames]

theorem declares_of_emitFunction {binding : String} {f : Code} {g : Function}
    (h : emitFunction binding f = .ok g) : g.Declares binding f := by
  cases f with
  | declare name ps result builtin place =>
    obtain ⟨ns, hns, h⟩ := bind_eq_ok.1 h
    cases h
    exact declares_forwarder binding (f := .declare name ps result builtin place) rfl hns
  | define name ps result body builtin place =>
    obtain ⟨ns, hns, h⟩ := bind_eq_ok.1 h
    split at h
    · rename_i hbody
      cases h
      exact declares_forwarder binding (f := .define name ps result body builtin place)
        (by simp [hasBody, hbody]) hns
    · rename_i hbody
      obtain ⟨lines, _, h⟩ := bind_eq_ok.1 h
      cases h
      exact ⟨rfl, eq_filterMap_of_paramNames hns, length_of_paramNames hns,
        by simp [restName?, hasBody, hbody], by simp [hasBody, hbody]⟩
  | _ => cases h

theorem stubs_of_emitStub {binding name : String} {g : Function}
    (h : emitStub binding name = .ok g) : g.Stubs binding name := by
  rw [emitStub] at h
  split at h
  · cases h
  · rename_i s hs
    split at h
    · rename_i hvariadic
      cases h
      exact ⟨rfl, ⟨s, hs, by simp [hvariadic], by simp [hvariadic]⟩, rfl⟩
    · rename_i hvariadic
      cases h
      exact ⟨rfl, ⟨s, hs, by simp [hvariadic, argNames], by simp [hvariadic]⟩, rfl⟩

/-- The functions of a module, each with what it is made from, and the binding that they forward
to. -/
structure Emitted (o : Options) (program : Code) (called : List String) (m : Module) : Prop where
  binding : m.binding =
    freeName ((functions program).flatMap fun f => functionName f :: ownNames f) o.binding
  functions : ∃ declared stubs, m.functions = declared ++ stubs ∧
    List.Forall₂ (fun f g => g.Declares m.binding f) (kept program called) declared ∧
    List.Forall₂ (fun n g => g.Stubs m.binding n) (missing program called) stubs

theorem emitted_of_ofCode {o : Options} {program : Code} {called : List String} {m : Module}
    (h : ofCode o program called = .ok m) : Emitted o program called m := by
  obtain ⟨binding, hbinding, h⟩ := bind_eq_ok.1 h
  obtain ⟨declared, hdeclared, h⟩ := bind_eq_ok.1 h
  obtain ⟨stubs, hstubs, h⟩ := bind_eq_ok.1 h
  obtain ⟨aliases, _, h⟩ := bind_eq_ok.1 h
  obtain ⟨statements, _, h⟩ := bind_eq_ok.1 h
  obtain ⟨taken, htaken, hbinding⟩ := bind_eq_ok.1 hbinding
  cases h
  cases hbinding
  refine ⟨by rw [eq_flatMap_of_takenNames htaken], declared, stubs, rfl, ?_, ?_⟩
  · exact (forall₂_of_mapM hdeclared).imp fun _ _ => declares_of_emitFunction
  · exact (forall₂_of_mapM hstubs).imp fun _ _ => stubs_of_emitStub

theorem Emitted.cases {o : Options} {program : Code} {called : List String} {m : Module}
    (h : Emitted o program called m) {g : Function} (hg : g ∈ m.functions) :
    (∃ f ∈ kept program called, g.Declares m.binding f) ∨
      ∃ n ∈ missing program called, g.Stubs m.binding n := by
  obtain ⟨declared, stubs, hfunctions, hdeclared, hstubs⟩ := h.functions
  rw [hfunctions, List.mem_append] at hg
  exact hg.imp (exists_of_mem_forall₂ hdeclared) (exists_of_mem_forall₂ hstubs)

def stubNames (n : String) : List String :=
  match Library.find? n with
  | none => [n]
  | some s => n :: if s.variadic then ["args"] else argNames s.arity

def addedNames (program : Code) (called : List String) : List String :=
  (kept program called).filterMap restName? ++ (missing program called).flatMap stubNames

theorem Function.Declares.names_eq {binding : String} {f : Code} {g : Function}
    (h : g.Declares binding f) :
    g.names = functionName f :: ownNames f ++ (restName? f).toList := by
  rw [Function.names, h.name, h.params, h.rest]

theorem Function.Stubs.names_eq {binding n : String} {g : Function} (h : g.Stubs binding n) :
    g.names = stubNames n := by
  obtain ⟨s, hs, hparams, hrest⟩ := h.signature
  rw [Function.names, h.name, hparams, hrest, stubNames, hs]
  cases hvariadic : s.variadic <;> simp [hvariadic]

theorem mem_functions_of_mem_kept {program f : Code} {called : List String}
    (h : f ∈ kept program called) : f ∈ functions program :=
  List.mem_filter.2 (isFunction_of_mem_kept h)

namespace Emitted

variable {o : Options} {program : Code} {called : List String} {m : Module}

theorem binding_notMem (h : Emitted o program called m) {f : Code} (hf : f ∈ kept program called) :
    m.binding ∉ functionName f :: ownNames f := by
  intro hmem
  have htaken : m.binding ∈
      (Script.functions program).flatMap fun f => functionName f :: ownNames f :=
    List.mem_flatMap.2 ⟨f, mem_functions_of_mem_kept hf, hmem⟩
  rw [h.binding] at htaken
  exact freeName_notMem _ _ htaken

theorem binding_notMem_names_iff (h : Emitted o program called m) :
    (∀ g ∈ m.functions, m.binding ∉ g.names) ↔ m.binding ∉ addedNames program called := by
  obtain ⟨declared, stubs, hfunctions, hdeclared, hstubs⟩ := h.functions
  have hnames := map_eq_map_of_forall₂ (hdeclared.imp fun _ _ h => h.names_eq)
  have hnames' := map_eq_map_of_forall₂ (hstubs.imp fun _ _ h => h.names_eq)
  calc (∀ g ∈ m.functions, m.binding ∉ g.names)
    _ ↔ (∀ ns ∈ declared.map Function.names, m.binding ∉ ns) ∧
        ∀ ns ∈ stubs.map Function.names, m.binding ∉ ns := by
      simp [hfunctions, or_imp, forall_and]
    _ ↔ (∀ f ∈ kept program called, restName? f ≠ some m.binding) ∧
        ∀ n ∈ missing program called, m.binding ∉ stubNames n := by
      rw [hnames, hnames', List.forall_mem_map, List.forall_mem_map]
      refine and_congr_left' (forall₂_congr fun f hf => ?_)
      rw [List.mem_append, or_iff_right (h.binding_notMem hf), Option.mem_toList]
    _ ↔ m.binding ∉ addedNames program called := by
      simp [addedNames, not_or]

end Emitted

def IsAddable (n : String) : Prop :=
  Library.reserved n ∨ n ∈ ["args", "arg0", "arg1"] ∨ Padded "rest" n

theorem isAddable_of_mem_stubNames {n a : String} (hn : Library.reserved n)
    (h : a ∈ stubNames n) : IsAddable a := by
  have hall : ∀ n ∈ Library.functions.names, ∀ a ∈ stubNames n,
      a = n ∨ a ∈ ["args", "arg0", "arg1"] := by decide
  obtain rfl | ha := hall n (by simpa [Library.reserved, Table.has] using hn) a h
  · exact .inl hn
  · exact .inr (.inl ha)

theorem getLast?_append_underscore (n : String) : (n ++ "_").toList.getLast? = some '_' := by
  simp

theorem IsAddable.of_append_underscore {n : String} (h : IsAddable (n ++ "_")) : IsAddable n := by
  have hlast := getLast?_append_underscore n
  have hreserved : ∀ a ∈ Library.functions.names, a.toList.getLast? ≠ some '_' := by decide
  have hargs : ∀ a ∈ ["args", "arg0", "arg1"], a.toList.getLast? ≠ some '_' := by decide
  obtain h | h | h := h
  · exact absurd hlast (hreserved _ (by simpa [Library.reserved, Table.has] using h))
  · exact absurd hlast (hargs _ h)
  · generalize hpadded : n ++ "_" = p at h
    cases h with
    | base =>
      rw [hpadded] at hlast
      exact absurd hlast (by decide)
    | @pad n' h =>
      have heq : n = n' := by
        have hchars := congrArg String.toList hpadded
        simp only [String.toList_append, List.append_cancel_right_eq] at hchars
        exact String.toList_inj.1 hchars
      exact .inr (.inr (heq ▸ h))

theorem IsAddable.of_freeName {taken : List String} {n : String}
    (h : IsAddable (freeName taken n)) : IsAddable n := by
  fun_induction freeName taken n with
  | case1 n _ ih => exact (ih h).of_append_underscore
  | case2 n _ => exact h

theorem Emitted.isAddable_of_mem {o : Options} {program : Code} {called : List String} {m : Module}
    (h : Emitted o program called m) {a : String} (ha : a ∈ addedNames program called) :
    IsAddable a := by
  obtain ⟨_, stubs, _, _, hstubs⟩ := h.functions
  rw [addedNames, List.mem_append, List.mem_filterMap, List.mem_flatMap] at ha
  obtain ⟨f, _, hf⟩ | ⟨n, hn, ha⟩ := ha
  · rw [restName?] at hf
    split at hf
    · cases hf
      exact .inr (.inr (padded_freeName _ _))
    · cases hf
  · obtain ⟨g, _, hg⟩ := exists_of_mem_forall₂ hstubs.flip hn
    obtain ⟨s, hs, _⟩ := hg.signature
    exact isAddable_of_mem_stubNames (Library.reserved_of_find? hs) ha

/-- The binding of a module is no function and no parameter of it exactly if it is none of the names
that emission adds. That is so whatever the program, unless the binding that is asked for is of the
form of such a name. -/
theorem binding_shadowed_iff {o : Options} {program : Code} {called : List String} {m : Module}
    (h : ofCode o program called = .ok m) :
    Padded o.binding m.binding ∧
      ((∀ g ∈ m.functions, m.binding ∉ g.names) ↔ m.binding ∉ addedNames program called) ∧
      (¬IsAddable o.binding → ∀ g ∈ m.functions, m.binding ∉ g.names) := by
  have hemitted := emitted_of_ofCode h
  have hiff := hemitted.binding_notMem_names_iff
  refine ⟨?_, hiff, fun hbinding => hiff.2 fun hmem => hbinding ?_⟩
  · rw [hemitted.binding]
    exact padded_freeName _ _
  · have haddable := hemitted.isAddable_of_mem hmem
    rw [hemitted.binding] at haddable
    exact haddable.of_freeName

example : ¬IsAddable "stdlib" := by
  rintro (h | h | h)
  · exact absurd h (by decide)
  · exact absurd h (by decide)
  · generalize hn : "stdlib" = n at h
    cases h with
    | base => exact absurd hn (by decide)
    | @pad n =>
      have hlast := getLast?_append_underscore n
      rw [← hn] at hlast
      exact absurd hlast (by decide)

theorem exists_of_ofCode {o : Options} {program : Code} {called : List String} {b : String}
    {gs : List Function} (h : (ofCode o program called).toOption.map
      (fun m => (m.binding, m.functions)) = some (b, gs)) :
    ∃ m, ofCode o program called = .ok m ∧ m.binding = b ∧ m.functions = gs := by
  obtain ⟨m, hm, heq⟩ := Option.map_eq_some_iff.1 h
  exact ⟨m, toOption_eq_some.1 hm, congrArg Prod.fst heq, congrArg Prod.snd heq⟩

def declaring : Code := .program
  [.declare "f" [.param "stdlib" .number none] .number false none,
    .expr (.call (.name "print" none)
      [.call (.name "f" none) [.literal (.int 1) .number none] false none] true none) none]
  "main.struct" none

theorem binding_shadowed_iff_declaring : ∃ m, ofCode {} declaring ["print"] = .ok m ∧
    m.binding = "stdlib_" ∧ ∀ g ∈ m.functions, m.binding ∉ g.names := by
  have hcomputed : (ofCode {} declaring ["print"]).toOption.map
      (fun m => (m.binding, m.functions)) =
      some ("stdlib_", [⟨"f", ["stdlib"], none, .forward "stdlib_"⟩,
        ⟨"print", [], some "args", .forward "stdlib_"⟩]) := by decide +kernel
  obtain ⟨m, hm, hbinding, _⟩ := exists_of_ofCode hcomputed
  refine ⟨m, hm, hbinding, (binding_shadowed_iff hm).2.1.2 ?_⟩
  rw [hbinding]
  decide +kernel

namespace Printing

def tokens : List Token :=
  [⟨.keyword, "print", 1, 1⟩, ⟨.symbol, "(", 1, 6⟩, ⟨.number, "1", 1, 7⟩, ⟨.symbol, ")", 1, 8⟩,
    ⟨.symbol, ";", 1, 9⟩, ⟨.eof, "", 1, 10⟩]

open MainFile (place)

def tree : Tree := .program
  [.expr (.call (.name "print" (place 1 5)) [.number "1" (place 7 1)] (place 1 5)) none (place 1 5)]
  "main.struct" (place 1 5)

def code : Code := .program
  [.expr (.call (.name "print" (place 1 5)) [.literal (.int 1) .number (place 7 1)] true
    (place 1 5)) (place 1 5)]
  "main.struct" (place 1 5)

end Printing

theorem binding_mem_names_of_stub : ∃ ts t c m,
    Token.scan "main.struct" "print(1);" = .ok ts ∧ Tree.parse "main.struct" ts = .ok t ∧
      t.lower = .ok c ∧ ofCode { binding := "args" } c c.calledBuiltins = .ok m ∧
      ∃ g ∈ m.functions, m.binding ∈ g.names := by
  have hcomputed : (ofCode { binding := "args" } Printing.code
      Printing.code.calledBuiltins).toOption.map (fun m => (m.binding, m.functions)) =
      some ("args", [⟨"print", [], some "args", .forward "args"⟩]) := by decide +kernel
  obtain ⟨m, hm, hbinding, hfunctions⟩ := exists_of_ofCode hcomputed
  refine ⟨Printing.tokens, Printing.tree, Printing.code, m, toOption_eq_some.1 (by decide +kernel),
    by cbv, by cbv, hm, ⟨"print", [], some "args", .forward "args"⟩, ?_, ?_⟩
  · rw [hfunctions]
    exact List.mem_cons_self
  · rw [hbinding]
    decide

end StructLang.Script
