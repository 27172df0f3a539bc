import Mathlib.Data.List.Permutation
import StructLang.Proofs.Script.Functions
import StructLang.Proofs.Script.Reading
import StructLang.Proofs.Tree.Names

namespace StructLang

open Script

theorem Tree.IsExpr.legible {N : String → Prop} {s : Tree} {e : Code} (h : s.IsExpr N)
    (hnames : s.References (Token.IsName ·.toList)) (hlower : s.lower = .ok e)
    (hfinite : ∀ v ∈ e.literals, v.isFinite) : e.Legible := by
  induction h generalizing e with
  | number _ =>
    obtain ⟨v, hv, hlower⟩ := bind_eq_ok.1 hlower
    cases hlower
    exact .number (Value.isNumber_of_ofNumeral hv) (hfinite v (by simp [Code.literals]))
      (Value.isWritable_of_ofNumeral hv)
  | string =>
    cases hlower
    exact .text
  | name =>
    cases hlower
    exact .name ((references_iff.1 hnames).1 _ rfl)
  | binary _ _ ihl ihr =>
    obtain ⟨l, hl, hlower⟩ := bind_eq_ok.1 hlower
    obtain ⟨r, hr, hlower⟩ := bind_eq_ok.1 hlower
    cases hlower
    rw [references_iff_children rfl, children, List.forall_mem_cons, List.forall_mem_singleton]
      at hnames
    rw [Code.literals, List.forall_mem_append] at hfinite
    exact .binary (ihl hnames.1 hl hfinite.1) (ihr hnames.2 hr hfinite.2)
  | call _ _ ihf ihargs =>
    obtain ⟨f, hf, hlower⟩ := bind_eq_ok.1 hlower
    obtain ⟨cs, hcs, hlower⟩ := bind_eq_ok.1 hlower
    cases hlower
    rw [references_iff_children rfl, children, List.forall_mem_cons] at hnames
    rw [Code.literals, List.forall_mem_append, Code.forall_mem_literalsAll] at hfinite
    refine .call (ihf hnames.1 hf hfinite.1) fun c hc => ?_
    rw [lowerAll_eq_mapM] at hcs
    obtain ⟨a, ha, hac⟩ := exists_of_mem_forall₂ (forall₂_of_mapM hcs) hc
    exact ihargs a ha (hnames.2 a ha) hac (hfinite.2 c hc)
  | member _ ih =>
    obtain ⟨o, ho, hlower⟩ := bind_eq_ok.1 hlower
    cases hlower
    rw [references_iff, children, List.forall_mem_singleton] at hnames
    exact .member (ih hnames.2 ho hfinite) (hnames.1 _ rfl)

/-- An expression of a parsed program, all its numbers finite, has a text, and the script has one
reading of it, which is the expression, just if no negative number in it is called and no number
that is negative or whole has a member. -/
theorem script_readsBack_iff {file source : String} {ts : List Token} {t s : Tree} {e : Code}
    (hscan : Token.scan file source = .ok ts) (hparse : Tree.parse file ts = .ok t)
    (hs : s ∈ t.preorder) (hexpr : s.IsExpr fun _ => True) (hlower : s.lower = .ok e)
    (hfinite : ∀ v ∈ e.literals, v.isFinite) :
    ∃ text, e.script = .ok text ∧ (ReadsBack text e ↔ e.separated) :=
  readsBack_iff_separated <|
    hexpr.legible ((Tree.references_of_scan hscan hparse).of_mem_preorder hs) hlower hfinite

open MainFile (place)

namespace Printed

def printing (argument : Tree) : Tree := .program
  [.expr (.call (.name "print" (place 1 5)) [argument] (place 1 5)) none (place 1 5)]
  "main.struct" (place 1 5)

theorem mem_preorder_printing (argument : Tree) : argument ∈ (printing argument).preorder := by
  have hself : argument ∈ argument.preorder := by
    rw [Tree.preorder_eq_cons]
    exact List.mem_cons_self
  simp [printing, Tree.preorder, Tree.preorderAll, hself]

end Printed

open Printed

namespace Nested

def source : String := "print(a - (-2.5 - 3) * a.b(4.5.c, \"x\"));"

def tokens : List Token :=
  [⟨.keyword, "print", 1, 1⟩, ⟨.symbol, "(", 1, 6⟩, ⟨.identifier, "a", 1, 7⟩,
    ⟨.operator, "-", 1, 9⟩, ⟨.symbol, "(", 1, 11⟩, ⟨.number, "-2.5", 1, 12⟩,
    ⟨.operator, "-", 1, 17⟩, ⟨.number, "3", 1, 19⟩, ⟨.symbol, ")", 1, 20⟩, ⟨.operator, "*", 1, 22⟩,
    ⟨.identifier, "a", 1, 24⟩, ⟨.symbol, ".", 1, 25⟩, ⟨.identifier, "b", 1, 26⟩,
    ⟨.symbol, "(", 1, 27⟩, ⟨.number, "4.5", 1, 28⟩, ⟨.symbol, ".", 1, 31⟩,
    ⟨.identifier, "c", 1, 32⟩, ⟨.symbol, ",", 1, 33⟩, ⟨.string, "\"x\"", 1, 35⟩,
    ⟨.symbol, ")", 1, 38⟩, ⟨.symbol, ")", 1, 39⟩, ⟨.symbol, ";", 1, 40⟩, ⟨.eof, "", 1, 41⟩]

def argument : Tree :=
  .binary .sub (.name "a" (place 7 1))
    (.binary .mul
      (.binary .sub (.number "-2.5" (place 12 4)) (.number "3" (place 19 1)) (place 17 1))
      (.call (.member (.name "a" (place 24 1)) "b" (place 26 1))
        [.member (.number "4.5" (place 28 3)) "c" (place 32 1), .string "\"x\"" (place 35 3)]
        (place 26 1)) (place 22 1)) (place 9 1)

theorem computed : (Token.scan "main.struct" source).toOption = some tokens ∧
    Tree.parse "main.struct" tokens = .ok (printing argument) :=
  ⟨by decide +kernel, by cbv⟩

theorem scan_source : Token.scan "main.struct" source = .ok tokens := toOption_eq_some.1 computed.1

theorem parse_tokens : Tree.parse "main.struct" tokens = .ok (printing argument) := computed.2

theorem isExpr_argument : argument.IsExpr fun _ => True :=
  .binary .name (.binary (.binary (.number trivial) (.number trivial))
    (.call (.member .name) (by simpa using ⟨.member (.number trivial), .string⟩)))

theorem lower_argument : ∃ e, argument.lower = .ok e ∧ (∀ v ∈ e.literals, v.isFinite) ∧
    e.separated ∧ e.script = .ok "a - (-2.5 - 3) * a.b(4.5.c, \"x\")" := by
  have hcomputed : argument.lower.toOption.map
      (fun e => (e.literals.all Value.isFinite, e.separated, e.script.toOption)) =
      some (true, true, some "a - (-2.5 - 3) * a.b(4.5.c, \"x\")") := by decide +kernel
  obtain ⟨e, he, heq⟩ := Option.map_eq_some_iff.1 hcomputed
  simp only [Prod.mk.injEq, List.all_eq_true] at heq
  exact ⟨e, toOption_eq_some.1 he, heq.1, heq.2.1, toOption_eq_some.1 heq.2.2⟩

end Nested

theorem script_readsBack_iff_nested :
    Token.scan "main.struct" Nested.source = .ok Nested.tokens ∧
    Tree.parse "main.struct" Nested.tokens = .ok (printing Nested.argument) ∧
    Nested.argument ∈ (printing Nested.argument).preorder ∧ (Nested.argument.IsExpr fun _ => True) ∧
    ∃ e, Nested.argument.lower = .ok e ∧ (∀ v ∈ e.literals, v.isFinite) ∧
      e.script = .ok "a - (-2.5 - 3) * a.b(4.5.c, \"x\")" ∧
      ReadsBack "a - (-2.5 - 3) * a.b(4.5.c, \"x\")" e := by
  obtain ⟨e, hlower, hfinite, hseparated, hscript⟩ := Nested.lower_argument
  obtain ⟨text, htext, hiff⟩ := script_readsBack_iff Nested.scan_source Nested.parse_tokens
    (mem_preorder_printing _) Nested.isExpr_argument hlower hfinite
  obtain rfl := Except.ok.inj (hscript.symm.trans htext)
  exact ⟨Nested.scan_source, Nested.parse_tokens, mem_preorder_printing _, Nested.isExpr_argument,
    e, hlower, hfinite, hscript, hiff.2 hseparated⟩

namespace Pointed

def source : String := "print(5.foo);"

def tokens : List Token :=
  [⟨.keyword, "print", 1, 1⟩, ⟨.symbol, "(", 1, 6⟩, ⟨.number, "5", 1, 7⟩, ⟨.symbol, ".", 1, 8⟩,
    ⟨.identifier, "foo", 1, 9⟩, ⟨.symbol, ")", 1, 12⟩, ⟨.symbol, ";", 1, 13⟩, ⟨.eof, "", 1, 14⟩]

def argument : Tree := .member (.number "5" (place 7 1)) "foo" (place 9 3)

theorem computed : (Token.scan "main.struct" source).toOption = some tokens ∧
    Tree.parse "main.struct" tokens = .ok (printing argument) :=
  ⟨by decide +kernel, by cbv⟩

theorem scan_source : Token.scan "main.struct" source = .ok tokens := toOption_eq_some.1 computed.1

theorem parse_tokens : Tree.parse "main.struct" tokens = .ok (printing argument) := computed.2

def code : Code := .member (.literal (.int 5) .number (place 7 1)) "foo" (place 9 3)

end Pointed

theorem unreadable_member_of_whole :
    Token.scan "main.struct" Pointed.source = .ok Pointed.tokens ∧
    Tree.parse "main.struct" Pointed.tokens = .ok (printing Pointed.argument) ∧
    Pointed.argument ∈ (printing Pointed.argument).preorder ∧
    (Pointed.argument.IsExpr fun _ => True) ∧ Pointed.argument.lower = .ok Pointed.code ∧
    (∀ v ∈ Pointed.code.literals, v.isFinite) ∧ Pointed.code.script = .ok "5.foo" ∧
    ∀ t, ¬Reads "5.foo" t := by
  have hwords : words "5.foo".toList = none := words_eq_none (by decide) rfl
  refine ⟨Pointed.scan_source, Pointed.parse_tokens, mem_preorder_printing _,
    .member (.number trivial), by cbv, by simp [Pointed.code, Code.literals, Value.isFinite],
    toOption_eq_some.1 (by decide +kernel), ?_⟩
  rintro t ⟨ws, hws, -⟩
  cases hwords.symm.trans hws

end StructLang
