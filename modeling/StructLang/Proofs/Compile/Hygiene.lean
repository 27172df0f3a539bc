import StructLang.Proofs.Script.Binding
import StructLang.Proofs.Script.Declarations
import StructLang.Proofs.Tree.Hygiene

namespace StructLang

open Script Token

namespace Code

variable {c c' : Code}

theorem Folds.functionParams_eq (h : c.Folds c') : functionParams c' = functionParams c := by
  cases h <;> rfl

theorem FoldsAll.map_functionParams {cs cs' : List Code} (h : FoldsAll cs cs') :
    cs'.map functionParams = cs.map functionParams := by
  induction cs generalizing cs' with
  | nil =>
    cases h
    rfl
  | cons c cs ih =>
    cases h with
    | cons hc hcs => rw [List.map_cons, List.map_cons, hc.functionParams_eq, ih hcs]

theorem Folds.map_functionParams (h : c.Folds c') :
    c'.statements.map functionParams = c.statements.map functionParams := by
  cases h with
  | program h => exact h.map_functionParams
  | _ => rfl

end Code

namespace Tree

variable {A : Ty → Prop} {B N : String → Prop} {t : Tree} {c c' : Code}

theorem IsTopStatement.ownNames_of_lower (h : t.IsTopStatement N) (hlower : t.lower = .ok c) :
    ∀ n ∈ ownNames c, ∃ p ∈ t.children, p.binding? = some n := by
  have hnames : ∀ {ps : List Tree} {qs : List Code}, (∀ p ∈ ps, p.IsParam) → lowerAll ps = .ok qs →
      ∀ n ∈ qs.filterMap Code.ownName?, ∃ p ∈ ps, p.binding? = some n := by
    intro ps qs hps hqs n hn
    have hmap : qs.map Code.ownName? = ps.map binding? := map_of_lowerAll (fun _ _ _ => rfl) hps hqs
    obtain ⟨q, hq, hqn⟩ := List.mem_filterMap.1 hn
    have hmem : some n ∈ ps.map binding? := by
      rw [← hmap, ← hqn]
      exact List.mem_map_of_mem hq
    exact List.mem_map.1 hmem
  match h with
  | .alias _ =>
    cases hlower
    exact fun n hn => by cases hn
  | .expr _ _ =>
    obtain ⟨e, _, hlower⟩ := bind_eq_ok.1 hlower
    cases hlower
    exact fun n hn => by cases hn
  | .declare hparams _ =>
    obtain ⟨ps, hps, hlower⟩ := bind_eq_ok.1 hlower
    cases hlower
    exact hnames hparams hps
  | .define hparams _ _ =>
    obtain ⟨ps, hps, hlower⟩ := bind_eq_ok.1 hlower
    obtain ⟨ss, _, hlower⟩ := bind_eq_ok.1 hlower
    cases hlower
    intro n hn
    obtain ⟨p, hp, hpn⟩ := hnames hparams hps n hn
    exact ⟨p, List.mem_append_left _ hp, hpn⟩

theorem IsProgram.ownNames_of_lower (h : t.IsProgram N) (hA : t.Annotates B A)
    (hlower : t.lower = .ok c) : ∀ f ∈ c.statements, ∀ n ∈ ownNames f, B n := by
  cases h with
  | program hss =>
    obtain ⟨cs, hcs, hlower⟩ := bind_eq_ok.1 hlower
    cases hlower
    rw [lowerAll_eq_mapM] at hcs
    intro f hf n hn
    obtain ⟨s, hs, hsf⟩ := exists_of_mem_forall₂ (forall₂_of_mapM hcs) hf
    obtain ⟨p, hp, hpn⟩ := (hss s hs).ownNames_of_lower hsf n hn
    have hp := (annotates_iff.1 ((annotates_iff.1 hA).2 s hs)).2 p hp
    exact (annotates_iff.1 hp).1.1 n hpn

end Tree

namespace Script

theorem notMem_keywords_of_prefix {n : String}
    (h : "rest".toList <+: n.toList ∨ "arg".toList <+: n.toList) : n ∉ Library.keywords := by
  have hall : ∀ k ∈ Library.keywords,
      ¬"rest".toList <+: k.toList ∧ ¬"arg".toList <+: k.toList := by decide
  intro hn
  obtain ⟨hrest, harg⟩ := hall n hn
  exact h.elim hrest harg

theorem Padded.isPrefix {a b : String} (h : Padded a b) : a.toList <+: b.toList := by
  induction h with
  | base => exact List.prefix_rfl
  | pad _ ih =>
    rw [String.toList_append]
    exact ih.trans (List.prefix_append _ _)

namespace Function

variable {b : String} {g : Function}

theorem Declares.notMem_keywords {f : Code} (h : g.Declares b f)
    (hf : ∀ n ∈ ownNames f, n ∉ Library.keywords) :
    ∀ n ∈ g.params ++ g.rest.toList, n ∉ Library.keywords := by
  rw [h.params, h.rest, List.forall_mem_append]
  refine ⟨hf, fun n hn => ?_⟩
  rw [Option.mem_toList, restName?] at hn
  split at hn
  · cases hn
    exact notMem_keywords_of_prefix (.inl (padded_freeName _ _).isPrefix)
  · cases hn

theorem Stubs.notMem_keywords {name : String} (h : g.Stubs b name) :
    ∀ n ∈ g.params ++ g.rest.toList, n ∉ Library.keywords := by
  obtain ⟨s, _, hparams, hrest⟩ := h.signature
  intro n hn
  refine notMem_keywords_of_prefix (.inr ?_)
  rw [hparams, hrest] at hn
  cases hs : s.variadic with
  | true =>
    obtain rfl : n = "args" := by simpa [hs] using hn
    decide
  | false =>
    obtain ⟨i, _, rfl⟩ : ∃ i < s.arity, s!"arg{i}" = n := by simpa [hs, argNames] using hn
    rw [String.toList_append]
    exact ⟨_, rfl⟩

end Function

theorem Emitted.notMem_keywords {o : Options} {program : Code} {called : List String} {m : Module}
    (h : Emitted o program called m)
    (hown : ∀ f ∈ program.statements, ∀ n ∈ ownNames f, n ∉ Library.keywords) :
    ∀ g ∈ m.functions, ∀ n ∈ g.params ++ g.rest.toList, n ∉ Library.keywords := by
  intro g hg
  obtain ⟨f, hf, hdeclares⟩ | ⟨n, _, hstubs⟩ := h.cases hg
  · exact hdeclares.notMem_keywords (hown f (isFunction_of_mem_kept hf).1)
  · exact hstubs.notMem_keywords

end Script

/-- Every name that a program introduces is a plain one, so no parameter hides what the runtime
offers; and every type in it is written as a token is, by whose text alone it is known. -/
theorem introduced_names_plain {file source : String} {ts : List Token} {p : Tree}
    (hscan : scan file source = .ok ts) (hparse : Tree.parse file ts = .ok p) :
    (∀ s ∈ p.preorder, (∀ n ∈ s.binding?, IsPlain n) ∧
      ∀ type ∈ s.annotation?, type.IsWritten ∧ Ty.ofText type.text = type ∧
        ∃ t ∈ ts, t.text = type.text) ∧
    ∀ c c', p.lower = .ok c → (c' = c ∨ ∃ tally, (c.fold tally).1 = .ok c') →
      ∀ o called m, ofCode o c' called = .ok m →
        ∀ g ∈ m.functions, ∀ n ∈ g.params ++ g.rest.toList, n ∉ Library.keywords := by
  have hannotates := Tree.annotates_of_scan hscan hparse
  constructor
  · intro s hs
    refine ⟨(hannotates s hs).1, fun type htype => ?_⟩
    obtain ⟨hwritten, hspelled⟩ := (hannotates s hs).2 type htype
    exact ⟨hwritten, Ty.ofText_text hwritten, hspelled⟩
  · intro c c' hlower hfold o called m hm
    have hprogram : p.IsProgram fun _ => True := Tree.isProgram_of_parse hparse fun _ _ _ => trivial
    have hown := hprogram.ownNames_of_lower hannotates hlower
    have hparams : c'.statements.map functionParams = c.statements.map functionParams := by
      obtain rfl | ⟨tally, hfold⟩ := hfold
      · rfl
      · exact (Code.folds_of_fold hfold).map_functionParams
    refine (emitted_of_ofCode hm).notMem_keywords fun f hf n hn => ?_
    have hmem : functionParams f ∈ c.statements.map functionParams := by
      rw [← hparams]
      exact List.mem_map_of_mem hf
    obtain ⟨f', hf', heq⟩ := List.mem_map.1 hmem
    rw [ownNames, ← heq] at hn
    exact (hown f' hf' n hn).keyword

namespace Aliased

def source : String := "t = string|number[]; f(x: t): number; f(\"a\");"

def tokens : List Token :=
  [⟨.identifier, "t", 1, 1⟩, ⟨.symbol, "=", 1, 3⟩, ⟨.type, "string|number[]", 1, 5⟩,
    ⟨.symbol, ";", 1, 20⟩, ⟨.identifier, "f", 1, 22⟩, ⟨.symbol, "(", 1, 23⟩,
    ⟨.identifier, "x", 1, 24⟩, ⟨.symbol, ":", 1, 25⟩, ⟨.identifier, "t", 1, 27⟩,
    ⟨.symbol, ")", 1, 28⟩, ⟨.returnType, "number", 1, 31⟩, ⟨.symbol, ";", 1, 37⟩,
    ⟨.identifier, "f", 1, 39⟩, ⟨.symbol, "(", 1, 40⟩, ⟨.string, "\"a\"", 1, 41⟩,
    ⟨.symbol, ")", 1, 44⟩, ⟨.symbol, ";", 1, 45⟩, ⟨.eof, "", 1, 46⟩]

open MainFile (place)

def tree : Tree := .program
  [.alias "t" (.union [.string, .array .number]) (place 1 1),
    .declare "f" [.param "x" (.alias "t") (place 24 1)] .number (place 22 1),
    .expr (.call (.name "f" (place 39 1)) [.string "\"a\"" (place 41 3)] (place 39 1)) none
      (place 39 1)]
  "main.struct" (place 1 1)

def code : Code := .program
  [.alias "t" (.union [.string, .array .number]) (place 1 1),
    .declare "f" [.param "x" (.alias "t") (place 24 1)] .number false (place 22 1),
    .expr (.call (.name "f" (place 39 1)) [.literal (.text "a") .string (place 41 3)] false
      (place 39 1)) (place 39 1)]
  "main.struct" (place 1 1)

end Aliased

open Aliased in
theorem introduced_names_plain_aliased : ∃ m,
    scan "main.struct" source = .ok tokens ∧ Tree.parse "main.struct" tokens = .ok tree ∧
      tree.lower = .ok code ∧ ofCode {} code [] = .ok m ∧
      IsPlain "t" ∧ (Ty.union [.string, .array .number]).IsWritten ∧
      Ty.ofText "t" = .alias "t" ∧
      ∀ g ∈ m.functions, ∀ n ∈ g.params ++ g.rest.toList, n ∉ Library.keywords := by
  have hscan : scan "main.struct" source = .ok tokens := toOption_eq_some.1 (by decide +kernel)
  have hparse : Tree.parse "main.struct" tokens = .ok tree := by cbv
  have hlower : tree.lower = .ok code := by cbv
  obtain ⟨m, hm, -, -⟩ := exists_of_ofCode (by decide +kernel :
    (ofCode {} code []).toOption.map (fun m => (m.binding, m.functions)) =
      some ("stdlib", [⟨"f", ["x"], none, .forward "stdlib"⟩]))
  obtain ⟨hnames, hmodule⟩ := introduced_names_plain hscan hparse
  have halias := hnames (.alias "t" (.union [.string, .array .number]) (MainFile.place 1 1))
    (by simp [tree, Tree.preorder, Tree.preorderAll])
  have hparam := hnames (.param "x" (.alias "t") (MainFile.place 24 1))
    (by simp [tree, Tree.preorder, Tree.preorderAll])
  exact ⟨m, hscan, hparse, hlower, hm, halias.1 "t" rfl, (halias.2 _ rfl).1, (hparam.2 _ rfl).2.1,
    hmodule code code hlower (.inl rfl) {} [] m hm⟩

end StructLang
