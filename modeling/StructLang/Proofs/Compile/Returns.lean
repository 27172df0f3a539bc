import StructLang.Proofs.Compile.Stages
import StructLang.Proofs.Number.Decimal
import StructLang.Proofs.SExpr.Compact
import StructLang.Proofs.Typing.Numeric

namespace StructLang

/-- Every compilation returns an outcome, which is a success or has one failure, if the numbers of
the program fit the stages that it comes to; if they do not, it ends with a fault of numbers. -/
theorem compile_returns_iff (job : Job) (last : Option Stage) :
    ((∃ o, compile job last = .ok o) ↔ ∀ s ∈ Stage.through last, job.Fits s) ∧
      (∀ o, compile job last = .ok o →
        (o.success ∧ o.failure = none ∧ o.reporter.errors = [] ∧
          job.Holds o (last.bind Stage.next?)) ∨
        ¬o.success ∧ ∃ f, o.failure = some f ∧ o.reporter.errors = [.ofFailure f] ∧
          ∀ t, ¬job.Checks t) ∧
      ∀ e, compile job last = .error e → e.IsNumeric := by
  have hsettles := compile_settles job last
  refine ⟨hsettles.isOk_iff, ?_, fun e he => (hsettles.of_error he).2⟩
  intro o ho
  obtain ⟨hsuccess, hready⟩ | hrefused := (hsettles.of_ok ho).2
  · have hreporter : o.reporter.errors = [] := congrArg Reporter.errors hready.reporter
    exact .inl ⟨hsuccess, hready.failure, hreporter, hready.holds⟩
  · obtain ⟨f, hf, hreporter, -⟩ := hrefused.failure
    have herrors : o.reporter.errors = [.ofFailure f] := congrArg Reporter.errors hreporter
    exact .inr ⟨by simp [hrefused.success], f, hf, herrors, hrefused.notChecks⟩

def Job.printing (n : Int) : Job := { source := "print(" ++ toString n ++ ");" }

def Tree.printing (text file : String) (p₁ p₂ p₃ p₄ p₅ : Option Span) : Tree :=
  .program [.expr (.call (.name "print" p₁) [.number text p₂] p₃) none p₄] file p₅

theorem Job.lexes_printing (n : Int) : Token.Lexes (Job.printing n).source.toList
    [(.keyword, "print"), (.symbol, "("), (.number, toString n), (.symbol, ")"),
      (.symbol, ";")] := by
  have hend : Token.Lexes ");".toList [(.symbol, ")"), (.symbol, ";")] :=
    .symbol (by decide) (.symbol (by decide) .nil)
  have hnumber := Token.Lexes.number n (.mark (by decide) _) hend
  have hopen : Token.Lexes ('(' :: ((toString n).toList ++ ");".toList)) _ :=
    .symbol (by decide) hnumber
  have hname : Token.Lexes ("print".toList ++ _) _ :=
    .name (Token.isName_iff.2 (by decide)) (by decide) (.mark (by decide) _) hopen
  have hkind : Token.nameKind "print" = .keyword := by decide
  simpa [Job.printing, hkind] using hname

theorem Grammar.program_of_call {x a t b s : Token} (hx : x.isName) (ha : a.isSymbol "(")
    (ht : t.kind = .number) (hb : b.isSymbol ")") (hs : s.isSymbol ";") :
    Program [x, a, t, b, s]
      [.expr (.call (.name x.text none) [.number t.text none] none) none none] := by
  have hcall : TopStatement (x :: a :: [t] ++ b :: [] ++ [s]) _ :=
    .call hx ha (.one (.operand (.primary (.number ht)))) hb .none hs
  exact .cons hcall .nil

theorem Job.parses_printing (n : Int) : ∃ p₁ p₂ p₃ p₄ p₅,
    (Job.printing n).Parses (Tree.printing (toString n) "main.struct" p₁ p₂ p₃ p₄ p₅) := by
  obtain ⟨ts, e, hscan, hts, he⟩ := (lexes_printing n).scan (by simp) (printing n).file
  simp only [List.map_eq_cons_iff, List.map_eq_nil_iff] at hts
  obtain ⟨x, _, rfl, hx, a, _, rfl, ha, t, _, rfl, ht, b, _, rfl, hb, s, _, rfl, hs, rfl⟩ := hts
  simp only [Token.word, Prod.mk.injEq] at hx ha ht hb hs
  have hname : x.isName := by simp [Token.isName, hx.1]
  have hprogram := Grammar.program_of_call hname (Parse.isSymbol_iff.2 ha) ht.1
    (Parse.isSymbol_iff.2 hb) (Parse.isSymbol_iff.2 hs)
  have htake : ([x, a, t, b, s] ++ [e]).takeWhile (·.kind != .eof) = [x, a, t, b, s] := by
    simp [hx, ha, ht, hb, hs, he]
  rw [← htake, hx.2, ht.2] at hprogram
  obtain ⟨p, hparse, hunplaced⟩ : ∃ p, Tree.parse (printing n).file _ = .ok p ∧ _ :=
    Tree.parse_eq_ok_iff.2 hprogram
  -- what the parser returns differs from the tree of the derivation in its places
  obtain ⟨_, p₅, rfl, hstatements⟩ := Tree.unplaced_eq_program hunplaced
  obtain ⟨_, rfl, hstatement⟩ := Tree.unplacedAll_eq_singleton hstatements
  obtain ⟨_, p₄, rfl, hcall⟩ := Tree.unplaced_eq_expr hstatement
  obtain ⟨_, _, p₃, rfl, hcallee, hargs⟩ := Tree.unplaced_eq_call hcall
  obtain ⟨p₁, rfl⟩ := Tree.unplaced_eq_name hcallee
  obtain ⟨_, rfl, harg⟩ := Tree.unplacedAll_eq_singleton hargs
  obtain ⟨p₂, rfl⟩ := Tree.unplaced_eq_number harg
  exact ⟨p₁, p₂, p₃, p₄, p₅, _, hscan, hparse⟩

theorem Tree.lower_printing_of_long {n : Int} (h : Numeral.digitLimit < (decimalDigits n).length)
    (file : String) (p₁ p₂ p₃ p₄ p₅ : Option Span) :
    (Tree.printing (toString n) file p₁ p₂ p₃ p₄ p₅).lower =
      .error (.numeral (.tooManyDigits (decimalDigits n).length)) := by
  simp only [Tree.printing, Tree.lower, Tree.lowerAll, Value.ofNumeral_toString_of_long h, ok_bind,
    error_bind]

/-- Once a program is parsed, the stages that make a script, a listing or a dump of it fail on
numbers only: one with too many digits to be read or written, or one too large to be added to a
fractional number. What the library functions are is found of every program. The writer of the dumps
is any that fails on no more than numbers. -/
theorem numeric_fault_of_parse {w : SExpr.Writer} (hw : w.IsSafe) {file source : String}
    {ts : List Token} {t : Tree} (hscan : Token.scan file source = .ok ts)
    (hparse : Tree.parse file ts = .ok t) :
    (∀ e, t.lower = .error e → ∃ n, Numeral.digitLimit < n ∧ e = .numeral (.tooManyDigits n)) ∧
    ∀ c, t.lower = .ok c →
      (∀ tally e, (c.fold tally).1 = .error e → e = .unwritable ∨ e = .tooLarge) ∧
      (∀ o e, o.code = some c → Plan.runAll Stage.passes Stage.afterPass o = .error e →
        e = .unwritable ∨ e = .tooLarge) ∧
      ∀ c', c' = c ∨ (∃ tally, (c.fold tally).1 = .ok c') →
        (∀ o, o.code = some c' → ∃ o', Stage.usagePass o = .ok o' ∧ o'.code = some c' ∧
          o'.called = some c'.calledBuiltins ∧ ∀ n ∈ c'.calledBuiltins, Library.reserved n) ∧
        (∀ o e, Script.emit o c' = .error e → e = .unwritable) ∧
        (∀ e, ThreeAddress.listing c' = .error e → e = .unwritable) ∧
        (∀ places e, c'.prettyDump w places = .error e → e = .unwritable) ∧
        ∀ places e, c'.compactDump w places = .error e → e = .unwritable := by
  have ht := Tree.isProgram_of_scan hscan hparse
  have hlowers := ht.lowersTo
  refine ⟨fun e he => (hlowers.of_error he).2, fun c hc => ?_⟩
  have hshape := (hlowers.of_ok hc).2
  have hfolds := hshape.foldsTo
  refine ⟨fun tally e he => ((hfolds tally).of_error he).2, fun o e hcode he => ?_,
    fun c' hc' => ?_⟩
  · exact ((Stage.runAll_passes_settles hcode hshape).of_error he).2
  -- the code before and after it is folded has the shape of a program and the same library calls
  · obtain ⟨hprogram, hreserved⟩ : c'.IsProgram ∧ ∀ n ∈ c'.calledBuiltins, Library.reserved n := by
      obtain rfl | ⟨tally, hfold⟩ := hc'
      · exact ⟨hshape, ht.reserved_of_mem_calledBuiltins hc rfl⟩
      · have hsame := (Code.folds_of_fold hfold).builtinCalls_eq
        exact ⟨((hfolds tally).of_ok hfold).2, ht.reserved_of_mem_calledBuiltins hc hsame⟩
    have hrenders := hprogram.renders hreserved
    refine ⟨fun o hcode => ?_, fun o _ => (hrenders.script o).of_error,
      fun _ => hrenders.listing.of_error, fun places _ => (hrenders.pretty w hw places).of_error,
      fun places _ => (hrenders.compact w hw places).of_error⟩
    obtain ⟨o', husage, -, -, hcode', hcalled⟩ := Stage.usagePass_of_code hcode
    exact ⟨o', husage, hcode', hcalled, hreserved⟩

theorem numeric_fault_of_parse_printing :
    (∃ ts t e, Token.scan "main.struct" (Job.printing (Nat.pow 10 Numeral.digitLimit)).source =
        .ok ts ∧ Tree.parse "main.struct" ts = .ok t ∧ t.lower = .error e ∧
      ∃ n, Numeral.digitLimit < n ∧ e = .numeral (.tooManyDigits n)) ∧
    ∃ ts t c o, Token.scan "main.struct" (Job.printing 1).source = .ok ts ∧
      Tree.parse "main.struct" ts = .ok t ∧ t.lower = .ok c ∧
      Stage.usagePass { code := some c } = .ok o ∧ o.called = some ["print"] := by
  constructor
  · have hlength := length_decimalDigits_pow Numeral.digitLimit
    generalize Nat.pow 10 Numeral.digitLimit = n at hlength ⊢
    obtain ⟨p₁, p₂, p₃, p₄, p₅, ts, hscan, hparse⟩ := Job.parses_printing n
    have hlower := Tree.lower_printing_of_long (n := n) (by omega) "main.struct" p₁ p₂ p₃ p₄ p₅
    exact ⟨ts, _, _, hscan, hparse, hlower,
      (numeric_fault_of_parse SExpr.compact_isSafe hscan hparse).1 _ hlower⟩
  · obtain ⟨p₁, p₂, p₃, p₄, p₅, ts, hscan, hparse⟩ := Job.parses_printing 1
    let c : Code := .program [.expr (.call (.name "print" p₁)
      [.literal (.int 1) .number p₂] true p₃) p₄] "main.struct" p₅
    have hlower : (Tree.printing (toString 1) "main.struct" p₁ p₂ p₃ p₄ p₅).lower = .ok c := rfl
    obtain ⟨-, -, hcode⟩ := (numeric_fault_of_parse SExpr.compact_isSafe hscan hparse).2 c hlower
    obtain ⟨o, ho, -, hcalled, -⟩ := (hcode c (.inl rfl)).1 { code := some c } rfl
    exact ⟨ts, _, c, o, hscan, hparse, hlower, ho, hcalled⟩

namespace Typing

theorem check_printing (text file : String) (p₁ p₂ p₃ p₄ p₅ : Option Span) :
    ({} : State).check (Tree.printing text file p₁ p₂ p₃ p₄ p₅) = ({}, .ok ()) :=
  State.check_eq rfl (by simp) (List.forall_mem_singleton.2 (passes_print (visit_number _ _ _))) _ _

end Typing

theorem compile_printing_of_long {n : Int} (h : Numeral.digitLimit < (decimalDigits n).length) :
    compile (Job.printing n) = .error (.numeral (.tooManyDigits (decimalDigits n).length)) := by
  obtain ⟨p₁, p₂, p₃, p₄, p₅, ts, hscan, hparse⟩ := Job.parses_printing n
  have hcheck := Typing.check_printing (toString n) "main.struct" p₁ p₂ p₃ p₄ p₅
  have hlower := Tree.lower_printing_of_long h "main.struct" p₁ p₂ p₃ p₄ p₅
  simp only [compile, Stage.all, Stage.runAll, Stage.run, Job.start, hscan, hparse, hcheck, hlower,
    ok_bind, error_bind, Outcome.note, Outcome.add, Outcome.refuse, Option.getD_some,
    Option.isSome_none, Bool.false_eq_true, if_false]

theorem compile_printing_power :
    compile (Job.printing (Nat.pow 10 Numeral.digitLimit)) =
      .error (.numeral (.tooManyDigits (Numeral.digitLimit + 1))) := by
  have hlength := length_decimalDigits_pow Numeral.digitLimit
  generalize Nat.pow 10 Numeral.digitLimit = n at hlength ⊢
  have hlong : Numeral.digitLimit < (decimalDigits n).length := by omega
  rw [compile_printing_of_long hlong, hlength]

end StructLang
