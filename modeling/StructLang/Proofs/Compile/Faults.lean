import StructLang.Proofs.Code.Usage
import StructLang.Proofs.Script.Functions
import StructLang.Proofs.Token.Lexes

namespace StructLang

namespace Tree

theorem isProgram_of_scan {file source : String} {ts : List Token} {t : Tree}
    (hscan : Token.scan file source = .ok ts) (hparse : parse file ts = .ok t) :
    t.IsProgram IsNumeral :=
  isProgram_of_parse hparse (Token.isNumeral_of_scan hscan)

variable {N : String → Prop} {t : Tree} {c c' : Code}

theorem IsProgram.reserved_of_mem_calledBuiltins (h : t.IsProgram N) (hlower : t.lower = .ok c)
    (hfolds : c'.builtinCalls = c.builtinCalls) : ∀ n ∈ c'.calledBuiltins, Library.reserved n := by
  intro n hn
  rw [Code.calledBuiltins, List.mem_eraseDups, hfolds, h.builtinCalls_of_lower hlower] at hn
  exact (List.mem_filter.1 hn).2

end Tree

namespace Code

/-- Every form of the program is there, unless a number in it cannot be written. -/
structure Renders (c : Code) : Prop where
  script : ∀ o, Yields (Script.emit o c) (fun _ => True) (· = .unwritable)
  listing : Yields (ThreeAddress.listing c) (fun _ => True) (· = .unwritable)
  pretty : ∀ w : SExpr.Writer, w.IsSafe → ∀ places,
    Yields (c.prettyDump w places) (fun _ => True) (· = .unwritable)
  compact : ∀ w : SExpr.Writer, w.IsSafe → ∀ places,
    Yields (c.compactDump w places) (fun _ => True) (· = .unwritable)

theorem IsProgram.renders {c : Code} (h : c.IsProgram)
    (hcalled : ∀ n ∈ c.calledBuiltins, Library.reserved n) : c.Renders where
  script o := (Script.ofCode_settles o h hcalled).yields.bind fun _ _ => .ok trivial
  listing := (ThreeAddress.listing_settles h).yields
  pretty _ hw _ := h.dump_yields.bind fun s _ => s.pretty_yields hw {} 0
  compact _ hw _ := h.dump_yields.bind fun s _ => hw s

end Code

end StructLang
